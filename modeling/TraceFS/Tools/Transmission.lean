import TraceFS.Tools.Udp2nexusPaths
import TraceFS.Tools.Udp2nexusSegments

/-!
A transmission from the board to the output files.

The sender numbers its datagrams one after the other, modulo 2^16; the network loses,
repeats and reorders them. What arrives is logged by `udplog.py` and the log is
converted by `udp2nexus`. The output files are compared with the chunks of the trace
that were sent.
-/
namespace TraceFS.Transmission
open Udp2nexus Udplog

/-- What a sender puts into its datagrams: four bytes, the number, a chunk of the
trace. -/
structure Sender where
  first : BitVec 16
  header : Nat → BitVec 32
  chunk : Nat → List Byte
  chunk_length : ∀ i, 6 + (chunk i).length ≤ dgramMax

/-- The arrival of a datagram at the logger. -/
structure Arrival where
  index : Nat
  tstamp : Timestamp
  ip : Ipv4
  port : BitVec 16

namespace Sender
variable (t : Sender)

def seqno (i : Nat) : BitVec 16 := t.first + BitVec.ofNat 16 i

def data (i : Nat) : List Byte :=
  bytes32 (t.header i) ++
    (t.seqno i).extractLsb' 0 8 :: (t.seqno i).extractLsb' 8 8 :: t.chunk i

def datagram (a : Arrival) : Datagram :=
  { tstamp := a.tstamp, sender := a.ip, port := a.port, data := t.data a.index }

def entry (a : Arrival) : Entry := (t.datagram a).entry

theorem data_length (i : Nat) : (t.data i).length = 6 + (t.chunk i).length := by
  simp only [data, bytes32, List.cons_append, List.nil_append, List.length_cons]
  omega

theorem entry_sized (a : Arrival) : (t.entry a).Sized := by
  have hlen : (t.entry a).data.length = 6 + (t.chunk a.index).length := t.data_length a.index
  have := t.chunk_length a.index
  exact ⟨by omega, by omega⟩

theorem entry_payload (a : Arrival) : (t.entry a).payload = t.chunk a.index := rfl

theorem seqno_of_bytes (n : BitVec 16) :
    (n.extractLsb' 8 8).setWidth 16 <<< 8 + (n.extractLsb' 0 8).setWidth 16 = n := by
  apply BitVec.eq_of_toNat_eq
  simp only [BitVec.toNat_add, BitVec.toNat_shiftLeft, BitVec.toNat_setWidth,
    BitVec.extractLsb'_toNat, Nat.shiftRight_eq_div_pow, Nat.shiftLeft_eq]
  have := n.isLt
  omega

theorem entry_seqno (a : Arrival) : (t.entry a).seqno = t.seqno a.index :=
  seqno_of_bytes (t.seqno a.index)

/-- Two numbers follow each other where the datagrams do, up to a multiple of 2^16. -/
theorem follows_iff (a b : Arrival) :
    follows (t.entry a) (t.entry b) ↔ b.index % 65536 = (a.index + 1) % 65536 := by
  have hnext : t.seqno a.index + 1 = t.first + BitVec.ofNat 16 (a.index + 1) := by
    rw [seqno, BitVec.add_assoc, BitVec.ofNat_add]
    rfl
  rw [follows, entry_seqno, entry_seqno, hnext, seqno, BitVec.add_right_inj, ← BitVec.toNat_inj,
    BitVec.toNat_ofNat, BitVec.toNat_ofNat]

end Sender

section Files
variable (fopen : Nat → Bool) (filename : List Char)

theorem opens_foldl {es : List Entry} (h : ∀ e ∈ es, e.Sized) (g : Globals) :
    (es.foldl (processEntry fopen) g).opens.length =
      ((numbered g.seqnoExp g.opens.length es).map Prod.snd).getLastD g.opens.length := by
  induction es generalizing g with
  | nil => rfl
  | cons e es ih =>
      have he := h e List.mem_cons_self
      rw [List.foldl_cons, ih (fun e' he' => h e' (List.mem_cons_of_mem e he')),
        processEntry_seqnoExp fopen g he, processEntry_opens fopen g he, numbered, List.map_cons,
        List.getLastD_cons]

/-- The streams are the parts of a log between its gaps, but for a first part that starts
with 0xFFFF. -/
theorem streams_eq {e : Entry} {es : List Entry} (h : ∀ e' ∈ e :: es, e'.Sized)
    (hopen : ∀ k, fopen k = true) :
    let parts := (e :: es).splitBy fun a b => follows a b
    (List.range (converted fopen filename (e :: es)).opens.length).map
        (streamContent (converted fopen filename (e :: es))) =
      (if e.seqno = 0xFFFF then parts.tail else parts).map (·.flatMap Entry.payload) := by
  intro parts
  have hopens : (converted fopen filename (e :: es)).opens.length =
      ((numbered 0xFFFF 0 (e :: es)).map Prod.snd).getLastD 0 :=
    opens_foldl fopen h (initGlobals filename)
  have hstream (k : Nat) : streamContent (converted fopen filename (e :: es)) k =
      ((Blocks.block Prod.snd (numbered 0xFFFF 0 (e :: es)) (1 + k)).map Prod.fst).flatMap
        Entry.payload := by
    rw [Nat.add_comm 1 k]
    exact streamContent_converted fopen filename h (hopen k)
  have hparts : parts =
      ((numbered 0xFFFF 0 (e :: es)).splitBy fun p q => follows p.1 q.1).map (List.map Prod.fst) := by
    rw [← Blocks.splitBy_map (q := fun a b => decide (follows a b)) Prod.fst, numbered_fst]
    exact List.isChain_iff_getElem.mpr fun _ _ => rfl
  -- the first part has the number 0 or 1, and the files are the parts from 1 on
  let n := if e.seqno = 0xFFFF then 0 else 1
  have hnum : numbered 0xFFFF 0 (e :: es) = (e, n) :: numbered (e.seqno + 1) n es := rfl
  have hlast : ((numbered 0xFFFF 0 (e :: es)).map Prod.snd).getLastD 0 =
      (((e, n) :: numbered (e.seqno + 1) n es).getLast (List.cons_ne_nil _ _)).2 := by
    rw [hnum, List.getLastD_eq_getLast?, List.getLast?_map,
      List.getLast?_eq_some_getLast (List.cons_ne_nil _ _)]
    rfl
  have hcut := numbered_cutAt 0xFFFF 0 (e :: es)
  rw [hopens, hlast, funext hstream, hparts]
  rw [hnum] at hcut ⊢
  rw [hcut.splitBy]
  generalize (((e, n) :: numbered (e.seqno + 1) n es).getLast (List.cons_ne_nil _ _)).2 = last
  by_cases hfirst : e.seqno = 0xFFFF
  · have hn : n = 0 := if_pos hfirst
    simp only [hn, hfirst, if_true, Nat.sub_zero, List.range'_succ, List.map_cons, List.tail_cons,
      List.range'_eq_map_range, List.map_map]
    rfl
  · have hn : n = 1 := if_neg hfirst
    simp only [hn, hfirst, if_false, Nat.add_sub_cancel, List.range'_eq_map_range, List.map_map]
    rfl

end Files

/-- The datagrams that arrived, cut wherever one is not followed by the next one sent. -/
def runs (as : List Arrival) : List (List Nat) :=
  (as.map Arrival.index).splitBy fun i j => j = i + 1

theorem runs_contiguous {as : List Arrival} {run : List Nat} (h : run ∈ runs as) :
    ∃ i n, run = List.range' i n := by
  have hchain : run.IsChain fun i j => j = i + 1 :=
    (List.isChain_of_mem_splitBy h).imp fun _ _ hij => of_decide_eq_true hij
  clear h
  induction run with
  | nil => exact ⟨0, 0, rfl⟩
  | cons i run ih =>
      obtain ⟨j, n, rfl⟩ := ih hchain.tail
      cases n with
      | zero => exact ⟨i, 1, rfl⟩
      | succ n =>
          have hj : j = i + 1 := (List.isChain_cons_cons.mp hchain).1
          exact ⟨i, n + 2, by rw [hj]; rfl⟩

/-- The runs that get a file: a first one that starts with 0xFFFF is taken for the
continuation of nothing and lost. -/
def recorded (t : Sender) (as : List Arrival) : List (List Nat) :=
  if as.head?.map (fun a => t.seqno a.index) = some 0xFFFF then (runs as).tail else runs as

section Transmitted
variable (t : Sender) (filename : List Char) {as : List Arrival}

theorem entries_sized (as : List Arrival) : ∀ e ∈ as.map t.entry, e.Sized := by
  intro e he
  obtain ⟨a, _, rfl⟩ := List.mem_map.mp he
  exact t.entry_sized a

theorem log_of_arrivals (as : List Arrival) :
    receiveLoop (as.map t.datagram) [] = some ((as.map t.entry).flatMap Entry.encode) := by
  have hdata : ∀ d ∈ as.map t.datagram, d.data.length ≤ dgramMax := by
    intro d hd
    obtain ⟨a, _, rfl⟩ := List.mem_map.mp hd
    exact (t.entry_sized a).2
  rw [receiveLoop_eq hdata, List.nil_append, List.map_map]
  rfl

theorem runs_eq (as : List Arrival) :
    runs as = (as.splitBy fun a b => b.index = a.index + 1).map (List.map Arrival.index) := by
  rw [runs, Blocks.splitBy_map (r := fun a b => decide (b.index = a.index + 1)) Arrival.index
    (List.isChain_iff_getElem.mpr fun _ _ => rfl)]

/-- The log has its gaps where the transmission has them. -/
theorem splitBy_entries
    (noWrap : as.IsChain fun a b =>
      b.index % 65536 = (a.index + 1) % 65536 → b.index = a.index + 1) :
    (as.map t.entry).splitBy (fun a b => follows a b) =
      (as.splitBy fun a b => b.index = a.index + 1).map (List.map t.entry) := by
  apply Blocks.splitBy_map
  refine noWrap.imp fun a b hab => ?_
  rw [decide_eq_decide, t.follows_iff]
  exact ⟨hab, fun h => by rw [h]⟩

theorem payloads_eq (parts : List (List Arrival)) :
    (parts.map (List.map t.entry)).map (·.flatMap Entry.payload) =
      (parts.map (List.map Arrival.index)).map (·.flatMap t.chunk) := by
  rw [List.map_map, List.map_map]
  apply List.map_congr_left
  intro part _
  simp only [Function.comp_apply, List.flatMap_map, t.entry_payload]

theorem streams_of_arrivals
    (noWrap : as.IsChain fun a b =>
      b.index % 65536 = (a.index + 1) % 65536 → b.index = a.index + 1) :
    (List.range (converted (fun _ => true) filename (as.map t.entry)).opens.length).map
        (streamContent (converted (fun _ => true) filename (as.map t.entry))) =
      (recorded t as).map (·.flatMap t.chunk) := by
  cases as with
  | nil => rfl
  | cons a as =>
      have hsized := entries_sized t (a :: as)
      have hparts := splitBy_entries t noWrap
      rw [List.map_cons] at hsized hparts ⊢
      rw [streams_eq _ filename hsized fun _ => rfl, hparts, t.entry_seqno, recorded, runs_eq]
      simp only [List.head?_cons, Option.map_some, Option.some.injEq, ← List.map_tail]
      split
      · exact payloads_eq t _
      · exact payloads_eq t _

end Transmitted

/-- Datagrams of one byte, numbered across the wrap-around. -/
def threeBytes : Sender :=
  { first := 0xFFFE, header := fun _ => 0, chunk := fun i => [BitVec.ofNat 8 i]
    chunk_length := fun _ => show 6 + 1 ≤ 2048 by decide }

def arriveAt (index : Nat) : Arrival :=
  { index := index
    tstamp := { day := 2, hour := 10, minute := 30, second := 15, microsecond := 500000
                day_le := by decide, hour_lt := by decide, minute_lt := by decide
                second_lt := by decide, microsecond_lt := by decide }
    ip := ⟨10, 0, 0, 1⟩, port := 0 }

end TraceFS.Transmission
