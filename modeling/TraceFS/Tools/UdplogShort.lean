import Mathlib.Data.List.Forall2
import TraceFS.Tools.Udp2nexusSegments
import TraceFS.Tools.Udplog

/-!
What the converter takes from each logged datagram.

The header of six bytes is read from a buffer that keeps what earlier datagrams
left in it, and the length of the payload is computed without a sign. A datagram
is handled from its own bytes exactly when it holds a whole header.
-/
namespace TraceFS.Udplog
open Udp2nexus (Byte Entry Packet Globals dgramMax bufferSeqno processEntry)

section Log
variable (fopen : Nat → Bool) (filename : List Char)

/-- The packets of the log that the receive loop writes. -/
def packetsOf (ds : List Datagram) : List Packet :=
  match receiveLoop ds [] with
  | none => []
  | some log =>
      match Udp2nexus.parseFile fopen filename (some log) with
      | none => []
      | some (_, g) => g.packets

/-- A packet handled from the bytes of its datagram alone. The sequence number is
the one found after any other datagrams, the length is the payload's and the
output is part of it. -/
structure OwnBytes (d : Datagram) (p : Packet) : Prop where
  seqno : ∀ before : List Datagram, (∀ d' ∈ before, d'.data.length ≤ 2048) →
    (packetsOf fopen filename (before ++ [d])).getLast?.map Packet.seqno = some p.seqno
  length_le : p.fwriteLen ≤ d.data.length
  no_underflow : p.stream.isSome = true → p.fwriteLen + 6 = d.data.length
  dumped : p.dumped <+: d.data.drop 6

theorem packetsOf_eq {ds : List Datagram} (h : ∀ d ∈ ds, d.data.length ≤ 2048) :
    packetsOf fopen filename ds =
      ((ds.map Datagram.entry).foldl (processEntry fopen)
        (Udp2nexus.initGlobals filename)).packets := by
  have hes : ∀ e ∈ ds.map Datagram.entry, e.data.length ≤ dgramMax := by
    intro e he
    have ⟨d, hd, hde⟩ := List.mem_map.mp he
    rw [← hde]
    exact h d hd
  simp only [packetsOf, receiveLoop_eq h, List.nil_append,
    Udp2nexus.parseFile_complete fopen filename hes]

/-- The sequence number is read from the buffer, the datagram in front. -/
theorem processEntry_seqno (g : Globals) (e : Entry) :
    ((processEntry fopen g e).packets.getLast?).map Packet.seqno =
      some (bufferSeqno (e.data ++ g.buffer.drop e.data.length)) := by
  simp only [processEntry, Udp2nexus.dumpDatagram, List.getLast?_append, List.getLast?_singleton,
    Option.some_or, Option.map_some]

theorem packetsOf_seqno {before : List Datagram} {d : Datagram}
    (h : ∀ d' ∈ before ++ [d], d'.data.length ≤ 2048) :
    (packetsOf fopen filename (before ++ [d])).getLast?.map Packet.seqno =
      some (bufferSeqno (d.data ++ (((before.map Datagram.entry).foldl (processEntry fopen)
        (Udp2nexus.initGlobals filename)).buffer.drop d.data.length))) := by
  rw [packetsOf_eq fopen filename h, List.map_append, List.foldl_append]
  exact processEntry_seqno fopen _ d.entry

end Log

theorem bufferSeqno_toNat (buffer : List Byte) :
    (bufferSeqno buffer).toNat = 256 * (buffer.getD 5 0).toNat + (buffer.getD 4 0).toNat := by
  have hi := (buffer.getD 5 0).isLt
  have lo := (buffer.getD 4 0).isLt
  simp only [bufferSeqno, BitVec.toNat_add, BitVec.toNat_shiftLeft, BitVec.toNat_setWidth,
    Nat.shiftLeft_eq]
  omega

/-- With a whole header the converter uses the datagram's own bytes. -/
theorem ownBytes_of_sized (fopen : Nat → Bool) (filename : List Char) (g : Globals)
    {d : Datagram} (hmin : 6 ≤ d.data.length) (hmax : d.data.length ≤ 2048) :
    OwnBytes fopen filename d (d.entry.packet (Udp2nexus.nextStream fopen g d.entry)) := by
  have hpay : d.entry.payload.length + 6 = d.data.length := by
    simp only [Entry.payload, Datagram.entry, List.length_drop]
    omega
  refine ⟨?_, ?_, ?_, ?_⟩
  · intro before hbefore
    have h : ∀ d' ∈ before ++ [d], d'.data.length ≤ 2048 := by
      intro d' hd'
      cases List.mem_append.mp hd' with
      | inl hin => exact hbefore d' hin
      | inr hlast => rw [List.mem_singleton.mp hlast]; exact hmax
    have hheader : 6 ≤ d.entry.data.length := hmin
    have hseqno (rest : List Byte) : bufferSeqno (d.data ++ rest) = d.entry.seqno :=
      Udp2nexus.bufferSeqno_append hheader rest
    rw [packetsOf_seqno fopen filename h, hseqno]
    rfl
  · simp only [Entry.packet]
    split <;> omega
  · intro hopen
    simp only [Entry.packet] at hopen ⊢
    rw [if_pos hopen, hpay]
  · simp only [Entry.packet]
    split
    · exact List.prefix_refl _
    · exact List.nil_prefix

theorem foldl_ownBytes (fopen : Nat → Bool) (filename : List Char) {ds : List Datagram}
    (hmin : ∀ d ∈ ds, 6 ≤ d.data.length) (hmax : ∀ d ∈ ds, d.data.length ≤ 2048) (g : Globals) :
    ∃ ps, ((ds.map Datagram.entry).foldl (processEntry fopen) g).packets = g.packets ++ ps ∧
      List.Forall₂ (OwnBytes fopen filename) ds ps := by
  induction ds generalizing g with
  | nil => exact ⟨[], (List.append_nil _).symm, List.Forall₂.nil⟩
  | cons d ds ih =>
      have hd : d.entry.Sized := ⟨hmin d List.mem_cons_self, hmax d List.mem_cons_self⟩
      have ⟨ps, hps, hown⟩ := ih (fun d' hd' => hmin d' (List.mem_cons_of_mem d hd'))
        (fun d' hd' => hmax d' (List.mem_cons_of_mem d hd')) (processEntry fopen g d.entry)
      refine ⟨d.entry.packet (Udp2nexus.nextStream fopen g d.entry) :: ps, ?_, ?_⟩
      · rw [List.map_cons, List.foldl_cons, hps, Udp2nexus.processEntry_packets fopen g hd,
          List.append_assoc]
        rfl
      · exact List.Forall₂.cons (ownBytes_of_sized fopen filename g hd.1 hd.2) hown

/-- A datagram whose six header bytes are all `b`. -/
def headerOf (b : Byte) : Datagram :=
  { tstamp := { day := 1, hour := 0, minute := 0, second := 0, microsecond := 0
                day_le := by decide, hour_lt := by decide, minute_lt := by decide
                second_lt := by decide, microsecond_lt := by decide }
    sender := ⟨10, 0, 0, 1⟩, port := 5055, data := List.replicate 6 b }

/-- Without a whole header the sequence number depends on the datagram before. -/
theorem not_ownBytes_of_short (fopen : Nat → Bool) (filename : List Char) {d : Datagram}
    (hshort : d.data.length < 6) (p : Packet) : ¬ OwnBytes fopen filename d p := by
  intro hown
  have after (b : Byte) : 256 * b.toNat ≤ p.seqno.toNat ∧ p.seqno.toNat < 256 * (b.toNat + 1) := by
    have hb : ∀ d' ∈ [headerOf b] ++ [d], d'.data.length ≤ 2048 := by
      intro d' hd'
      simp only [List.singleton_append, List.mem_cons, List.not_mem_nil, or_false] at hd'
      cases hd' with
      | inl h => rw [h, headerOf, List.length_replicate]; omega
      | inr h => rw [h]; omega
    have hseqno := hown.seqno [headerOf b] (fun d' hd' => hb d' (List.mem_append_left _ hd'))
    rw [packetsOf_seqno fopen filename hb] at hseqno
    have hstale (g : Globals) :
        (d.data ++ (processEntry fopen g (headerOf b).entry).buffer.drop d.data.length).getD 5 0 =
          b := by
      have hplace : d.data.length + (5 - d.data.length) = 5 := by omega
      rw [Udp2nexus.processEntry_buffer, List.getD_append_right _ _ _ _ (by omega),
        List.getD_eq_getElem?_getD, List.getElem?_drop, hplace]
      rfl
    have hvalue := congrArg BitVec.toNat (Option.some.inj hseqno)
    rw [bufferSeqno_toNat] at hvalue
    simp only [List.map_cons, List.map_nil, List.foldl_cons, List.foldl_nil, hstale] at hvalue
    have hlow := ((d.data ++ (processEntry fopen (Udp2nexus.initGlobals filename)
      (headerOf b).entry).buffer.drop d.data.length).getD 4 0).isLt
    omega
  have h0 := after 0
  have h1 := after 1
  have one : (1 : Byte).toNat = 1 := rfl
  have zero : (0 : Byte).toNat = 0 := rfl
  omega

theorem header_of_ownBytes {fopen : Nat → Bool} {filename : List Char} {ds : List Datagram}
    {ps : List Packet} (h : List.Forall₂ (OwnBytes fopen filename) ds ps) {d : Datagram}
    (hd : d ∈ ds) : 6 ≤ d.data.length := by
  by_contra hshort
  have ⟨i, hi, hget⟩ := List.getElem_of_mem hd
  have hp := h.get hi (by rw [← h.length_eq]; exact hi)
  rw [List.get_eq_getElem, List.get_eq_getElem, hget] at hp
  exact not_ownBytes_of_short fopen filename (Nat.lt_of_not_le hshort) _ hp

/-- Every entry of a log is handled from its own bytes exactly when every datagram
holds a whole header. -/
theorem ownBytes_iff_headers (fopen : Nat → Bool) (filename : List Char) {ds : List Datagram}
    (h : ∀ d ∈ ds, d.data.length ≤ 2048) :
    List.Forall₂ (OwnBytes fopen filename) ds (packetsOf fopen filename ds) ↔
      ∀ d ∈ ds, 6 ≤ d.data.length := by
  constructor
  · exact fun hown d hd => header_of_ownBytes hown hd
  · intro hheader
    have ⟨ps, hps, hown⟩ :=
      foldl_ownBytes fopen filename hheader h (Udp2nexus.initGlobals filename)
    rw [packetsOf_eq fopen filename h, hps]
    exact hown

/-- Two datagrams that follow each other, a bare header, and one behind a gap. -/
def fourDatagrams : List Datagram :=
  [{ headerOf 0 with data := [1, 2, 3, 4, 0xFE, 0xFF, 7, 8] },
    { headerOf 0 with data := [1, 2, 3, 4, 0xFF, 0xFF, 9] }, headerOf 0,
    { headerOf 0 with data := [5, 6, 7, 8, 0x34, 0x12, 10, 11, 12] }]

theorem ownBytes_of_fourDatagrams :
    List.Forall₂ (OwnBytes (fun _ => true) ['l', 'o', 'g']) fourDatagrams
      (packetsOf (fun _ => true) ['l', 'o', 'g'] fourDatagrams) :=
  (ownBytes_iff_headers (fun _ => true) ['l', 'o', 'g'] (by decide)).mpr (by decide)

/-- A datagram with two bytes of payload, then an empty one. -/
def emptyAfterPayload : List Datagram :=
  [{ headerOf 0 with data := [0, 0, 0, 0, 0xFF, 0xFF, 7, 8] }, { headerOf 0 with data := [] }]

/-- The empty datagram takes over the sequence number 0xFFFF of the one before, its
length wraps around, and the other's payload is written. -/
theorem empty_datagram_takes_stale_bytes :
    ((packetsOf (fun _ => true) ['l', 'o', 'g'] emptyAfterPayload)[1]?.map fun p =>
        (p.seqno, p.fwriteLen, p.dumped.take 2)) = some (0xFFFF, 4294967290, [7, 8]) ∧
      ¬ List.Forall₂ (OwnBytes (fun _ => true) ['l', 'o', 'g']) emptyAfterPayload
        (packetsOf (fun _ => true) ['l', 'o', 'g'] emptyAfterPayload) := by
  have hfound : ((packetsOf (fun _ => true) ['l', 'o', 'g'] emptyAfterPayload)[1]?.map fun p =>
      (p.seqno, p.fwriteLen, p.dumped.take 2)) = some (0xFFFF, 4294967290, [7, 8]) := by
    decide +kernel
  refine ⟨hfound, ?_⟩
  intro hown
  have hheader : 6 ≤ ([] : List Byte).length :=
    header_of_ownBytes hown (List.mem_cons_of_mem _ List.mem_cons_self)
  cases hheader

end TraceFS.Udplog
