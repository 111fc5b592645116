import Mathlib.Data.List.GetD
import TraceFS.Lib.Blocks
import TraceFS.Tools.Udp2nexus

/-!
How `udp2nexus` cuts a log into output streams.

The state that matters between two entries is the expected sequence number, the
open stream and the number of `fopen` calls. A run of consecutive numbers stays
in its stream, every other step starts a new one; the first entry is compared
with the initial value 0xFFFF of the expected number.
-/
namespace TraceFS.Udp2nexus

/-- The second entry carries the sequence number after the first one's. -/
def follows (a b : Entry) : Prop := b.seqno = a.seqno + 1

instance (a b : Entry) : Decidable (follows a b) := inferInstanceAs (Decidable (_ = _))

/-- Everything written to the stream of the `k`-th `fopen` call. -/
def streamContent (g : Globals) (k : Nat) : List Byte :=
  (g.packets.filter fun p => p.stream == some k).flatMap Packet.dumped

/-- Everything written, stream by stream in the order of opening. -/
def allContent (g : Globals) : List Byte := (List.range g.opens.length).flatMap (streamContent g)

/-- The stream open after an entry. -/
def nextStream (fopen : Nat → Bool) (g : Globals) (e : Entry) : Option Nat :=
  if e.seqno = g.seqnoExp then g.stream
  else if fopen g.opens.length then some g.opens.length else none

def Entry.packet (e : Entry) (stream : Option Nat) : Packet :=
  { tstamp0 := e.tstamp0, tstamp1 := e.tstamp1, ip := e.ip
    dgramlen := BitVec.ofNat 32 e.data.length, seqno := e.seqno, data := e.data
    stream := stream
    fwriteLen := if stream.isSome then e.payload.length else 0
    dumped := if stream.isSome then e.payload else [] }

section Process
variable (fopen : Nat → Bool) (g : Globals) {e : Entry}

theorem bufferSeqno_append (h : 6 ≤ e.data.length) (rest : List Byte) :
    bufferSeqno (e.data ++ rest) = e.seqno := by
  simp only [bufferSeqno, Entry.seqno, List.getD_append e.data rest 0 5 (by omega),
    List.getD_append e.data rest 0 4 (by omega)]

theorem processEntry_seqnoExp (h : e.Sized) :
    (processEntry fopen g e).seqnoExp = e.seqno + 1 := by
  simp only [processEntry, dumpDatagram, bufferSeqno_append h.1]

theorem processEntry_stream (h : e.Sized) :
    (processEntry fopen g e).stream = nextStream fopen g e := by
  simp only [processEntry, dumpDatagram, bufferSeqno_append h.1, nextStream]
  by_cases hs : e.seqno = g.seqnoExp <;> simp [hs, newBinFile]

theorem processEntry_opens (h : e.Sized) :
    (processEntry fopen g e).opens.length =
      if e.seqno = g.seqnoExp then g.opens.length else g.opens.length + 1 := by
  rw [processEntry_opens_length, bufferSeqno_append h.1]
  split
  · rfl
  · rfl

theorem processEntry_packets (h : e.Sized) :
    (processEntry fopen g e).packets = g.packets ++ [e.packet (nextStream fopen g e)] := by
  obtain ⟨hmin, hmax⟩ := h
  have hlen := toNat_dataLength hmax
  simp only [dgramMax] at hmax
  have hpay : e.payload.length = e.data.length - 6 := List.length_drop
  have hwrite : (BitVec.ofNat 32 e.data.length - 6).toNat = e.payload.length := by
    rw [BitVec.toNat_sub, hlen, hpay, show (6 : BitVec 32).toNat = 6 by rfl]
    omega
  have hdata (rest : List Byte) : (e.data ++ rest).take e.data.length = e.data :=
    List.take_left' rfl
  have hdump (rest : List Byte) : ((e.data ++ rest).drop 6).take e.payload.length = e.payload := by
    rw [List.drop_append_of_le_length hmin]
    exact List.take_left' rfl
  simp only [processEntry, dumpDatagram, bufferSeqno_append hmin, hlen, hwrite, Entry.packet,
    nextStream]
  by_cases hs : e.seqno = g.seqnoExp
  · simp [hs, hdata, hdump]
  · by_cases hf : fopen g.opens.length = true <;> simp [hs, newBinFile, hf, hdata, hdump]

end Process

/-- The stream of the `n`-th block, counted from 1; block 0 is the one before
the first `fopen`. -/
def blockStream (fopen : Nat → Bool) : Nat → Option Nat
  | 0 => none
  | n + 1 => if fopen n then some n else none

/-- Number the entries by blocks: a new block wherever the expected number is
missed. -/
def numbered : BitVec 16 → Nat → List Entry → List (Entry × Nat)
  | _, _, [] => []
  | expected, n, e :: es =>
      let n := if e.seqno = expected then n else n + 1
      (e, n) :: numbered (e.seqno + 1) n es

theorem packets_eq_numbered (fopen : Nat → Bool) {es : List Entry} (h : ∀ e ∈ es, e.Sized)
    (g : Globals) (hg : g.stream = blockStream fopen g.opens.length) :
    (es.foldl (processEntry fopen) g).packets =
      g.packets ++ (numbered g.seqnoExp g.opens.length es).map
        fun p => p.1.packet (blockStream fopen p.2) := by
  induction es generalizing g with
  | nil => simp [numbered]
  | cons e es ih =>
      have he := h e List.mem_cons_self
      have hes : ∀ e ∈ es, e.Sized := fun e' he' => h e' (List.mem_cons_of_mem e he')
      have hnext : nextStream fopen g e =
          blockStream fopen (processEntry fopen g e).opens.length := by
        rw [processEntry_opens fopen g he, nextStream]
        split
        · exact hg
        · rfl
      have hcont := ih hes (processEntry fopen g e)
        (by rw [processEntry_stream fopen g he, hnext])
      rw [List.foldl_cons, hcont, processEntry_packets fopen g he, hnext,
        processEntry_seqnoExp fopen g he, processEntry_opens fopen g he]
      simp [numbered]

theorem le_opens_foldl (fopen : Nat → Bool) {es : List Entry} (h : ∀ e ∈ es, e.Sized)
    (g : Globals) : g.opens.length ≤ (es.foldl (processEntry fopen) g).opens.length := by
  induction es generalizing g with
  | nil => exact Nat.le_refl _
  | cons e es ih =>
      have hstep : g.opens.length ≤ (processEntry fopen g e).opens.length := by
        rw [processEntry_opens fopen g (h e List.mem_cons_self)]
        split <;> omega
      exact Nat.le_trans hstep (ih (fun e' he' => h e' (List.mem_cons_of_mem e he')) _)

theorem le_opens_of_mem_numbered (fopen : Nat → Bool) {es : List Entry} (h : ∀ e ∈ es, e.Sized)
    (g : Globals) {p : Entry × Nat} (hp : p ∈ numbered g.seqnoExp g.opens.length es) :
    p.2 ≤ (es.foldl (processEntry fopen) g).opens.length := by
  induction es generalizing g with
  | nil => cases hp
  | cons e es ih =>
      have he := h e List.mem_cons_self
      have hes : ∀ e ∈ es, e.Sized := fun e' he' => h e' (List.mem_cons_of_mem e he')
      have hnumber := processEntry_opens fopen g he
      cases hp with
      | head => exact hnumber ▸ le_opens_foldl fopen hes (processEntry fopen g e)
      | tail _ hp =>
          rw [← hnumber, ← processEntry_seqnoExp fopen g he] at hp
          exact ih hes _ hp

theorem numbered_fst (expected : BitVec 16) (n : Nat) (es : List Entry) :
    (numbered expected n es).map Prod.fst = es := by
  induction es generalizing expected n with
  | nil => rfl
  | cons e es ih => simp [numbered, ih]

theorem le_of_mem_numbered {expected : BitVec 16} {n : Nat} {es : List Entry} {p : Entry × Nat}
    (h : p ∈ numbered expected n es) : n ≤ p.2 := by
  induction es generalizing expected n with
  | nil => cases h
  | cons e es ih =>
      have hle : n ≤ if e.seqno = expected then n else n + 1 := by split <;> omega
      cases h with
      | head => exact hle
      | tail _ h => exact Nat.le_trans hle (ih h)

/-- Neighbours share their block exactly when the numbers are consecutive. -/
theorem numbered_cutAt (expected : BitVec 16) (n : Nat) (es : List Entry) :
    Blocks.CutAt Prod.snd (fun p q : Entry × Nat => follows p.1 q.1) (numbered expected n es) := by
  induction es generalizing expected n with
  | nil => exact List.IsChain.nil
  | cons e es ih =>
      cases es with
      | nil => exact List.IsChain.singleton _
      | cons e' es => exact List.IsChain.cons_cons rfl (ih _ _)

/-! The streams of a whole conversion. -/

def blockEntries (es : List Entry) (n : Nat) : List Entry :=
  (Blocks.block Prod.snd (numbered 0xFFFF 0 es) n).map Prod.fst

section Conversion
variable (fopen : Nat → Bool) (filename : List Char) {es : List Entry}

def converted (es : List Entry) : Globals :=
  { es.foldl (processEntry fopen) (initGlobals filename) with stream := none }

theorem parseFile_eq_converted (h : ∀ e ∈ es, e.Sized) :
    parseFile fopen filename (some (es.flatMap Entry.encode)) =
      some (0, converted fopen filename es) :=
  parseFile_complete fopen filename fun e he => (h e he).2

theorem converted_packets (h : ∀ e ∈ es, e.Sized) :
    (converted fopen filename es).packets =
      (numbered 0xFFFF 0 es).map fun p => p.1.packet (blockStream fopen p.2) :=
  packets_eq_numbered fopen h (initGlobals filename) rfl

theorem blockStream_eq_some_iff {n k : Nat} :
    blockStream fopen n = some k ↔ n = k + 1 ∧ fopen k = true := by
  cases n with
  | zero => simp [blockStream]
  | succ n =>
      simp only [blockStream, Option.ite_none_right_eq_some, Option.some.injEq,
        Nat.add_right_cancel_iff]
      constructor
      · intro ⟨hf, hn⟩
        exact ⟨hn, hn ▸ hf⟩
      · intro ⟨hn, hf⟩
        exact ⟨hn ▸ hf, hn⟩

/-- The stream of `fopen` call `k` holds the payloads of block `k + 1`. -/
theorem streamContent_converted (h : ∀ e ∈ es, e.Sized) {k : Nat} (hk : fopen k = true) :
    streamContent (converted fopen filename es) k =
      (blockEntries es (k + 1)).flatMap Entry.payload := by
  have hstream (p : Entry × Nat) :
      ((p.1.packet (blockStream fopen p.2)).stream == some k) = decide (p.2 = k + 1) := by
    rw [Bool.eq_iff_iff]
    simp [Entry.packet, blockStream_eq_some_iff, hk]
  have hdumped {p : Entry × Nat} (hp : p.2 = k + 1) :
      (p.1.packet (blockStream fopen p.2)).dumped = p.1.payload := by
    rw [(blockStream_eq_some_iff fopen).mpr ⟨hp, hk⟩]
    rfl
  rw [streamContent, converted_packets fopen filename h, List.filter_map, List.flatMap_map,
    blockEntries, List.flatMap_map, Blocks.block]
  simp only [Function.comp_def, hstream]
  apply List.flatMap_congr
  intro p hp
  exact hdumped (of_decide_eq_true (List.mem_filter.mp hp).2)

theorem streamContent_failed (h : ∀ e ∈ es, e.Sized) {k : Nat} (hk : fopen k = false) :
    streamContent (converted fopen filename es) k = [] := by
  have hstream (p : Entry × Nat) :
      ((p.1.packet (blockStream fopen p.2)).stream == some k) = false := by
    rw [Bool.eq_false_iff]
    simp [Entry.packet, blockStream_eq_some_iff, hk]
  rw [streamContent, converted_packets fopen filename h, List.filter_map]
  simp only [Function.comp_def, hstream, List.filter_false, List.map_nil, List.flatMap_nil]

/-- The stream the `i`-th entry was written to. -/
def streamOf (g : Globals) (i : Nat) : Option Nat := g.packets[i]?.bind Packet.stream

theorem streamOf_converted (h : ∀ e ∈ es, e.Sized) {i k : Nat} :
    streamOf (converted fopen filename es) i = some k ↔
      fopen k = true ∧ ∃ p, (numbered 0xFFFF 0 es)[i]? = some p ∧ p.2 = k + 1 := by
  rw [streamOf, converted_packets fopen filename h, List.getElem?_map]
  cases (numbered 0xFFFF 0 es)[i]? with
  | none => simp
  | some p => simp [Entry.packet, blockStream_eq_some_iff, and_comm]

theorem numbered_getElem?_fst {i : Nat} {p : Entry × Nat}
    (h : (numbered 0xFFFF 0 es)[i]? = some p) : es[i]? = some p.1 := by
  have := numbered_fst 0xFFFF 0 es
  rw [← this, List.getElem?_map, h, Option.map_some]

end Conversion

/-- Every stream holds the payloads of a contiguous block of consecutively
numbered entries, and two written neighbours part exactly at a gap. -/
theorem streams_split_at_gaps (fopen : Nat → Bool) (filename : List Char) {es : List Entry}
    (h : ∀ e ∈ es, e.Sized) :
    ∃ g, parseFile fopen filename (some (es.flatMap Entry.encode)) = some (0, g) ∧
      (∀ k, ∃ before block after,
        es = before ++ (block ++ after) ∧ block.IsChain follows ∧
        streamContent g k = block.flatMap Entry.payload ∧
        ∀ i, streamOf g i = some k ↔
          before.length ≤ i ∧ i < before.length + block.length) ∧
      (∀ i e e' k k', es[i]? = some e → es[i + 1]? = some e' →
        streamOf g i = some k → streamOf g (i + 1) = some k' → (k ≠ k' ↔ ¬ follows e e')) := by
  have hcut := numbered_cutAt 0xFFFF 0 es
  refine ⟨converted fopen filename es, parseFile_eq_converted fopen filename h, ?_, ?_⟩
  · intro k
    cases hk : fopen k with
    | false =>
        refine ⟨es, [], [], by simp, List.IsChain.nil, ?_, ?_⟩
        · exact streamContent_failed fopen filename h hk
        · intro i
          simp only [streamOf_converted fopen filename h, hk, List.length_nil]
          constructor
          · intro ⟨hf, _⟩
            cases hf
          · omega
    | true =>
        have split := Blocks.before_append_block_append_after hcut.ordered (k + 1)
        refine ⟨(Blocks.before Prod.snd (numbered 0xFFFF 0 es) (k + 1)).map Prod.fst,
          blockEntries es (k + 1),
          (Blocks.after Prod.snd (numbered 0xFFFF 0 es) (k + 1)).map Prod.fst, ?_, ?_, ?_, ?_⟩
        · rw [blockEntries, ← List.map_append, ← List.map_append, split, numbered_fst]
        · exact List.isChain_map_of_isChain Prod.fst (fun _ _ hpq => hpq) (hcut.block_isChain (k + 1))
        · exact streamContent_converted fopen filename h hk
        · intro i
          rw [streamOf_converted fopen filename h, blockEntries, List.length_map, List.length_map,
            ← Blocks.key_getElem?_iff hcut.ordered]
          exact and_iff_right hk
  · intro i e e' k k' he he' hk hk'
    obtain ⟨_, p, hp, hnum⟩ := (streamOf_converted fopen filename h).mp hk
    obtain ⟨_, p', hp', hnum'⟩ := (streamOf_converted fopen filename h).mp hk'
    have hstep : p'.2 = if follows p.1 p'.1 then p.2 else p.2 + 1 := hcut.step hp hp'
    have hfst : e = p.1 := Option.some.inj (he.symm.trans (numbered_getElem?_fst hp))
    have hfst' : e' = p'.1 := Option.some.inj (he'.symm.trans (numbered_getElem?_fst hp'))
    rw [hfst, hfst']
    split at hstep
    case isTrue hf =>
        simp only [hf, not_true_eq_false, iff_false, ne_eq, not_not]
        omega
    case isFalse hf =>
        simp only [hf, not_false_eq_true, iff_true]
        omega

def Entry.ofPayload (seqno : BitVec 16) (payload : List Byte) : Entry :=
  { tstamp0 := 0, tstamp1 := 0, ip := 0
    data := [0, 0, 0, 0, seqno.extractLsb' 0 8, seqno.extractLsb' 8 8] ++ payload }

def wrapAndDuplicate : List Entry :=
  [.ofPayload 65534 [1], .ofPayload 65535 [2], .ofPayload 0 [3], .ofPayload 0 [4]]

theorem streams_split_at_duplicate :
    ∃ g, parseFile (fun _ => true) [] (some (wrapAndDuplicate.flatMap Entry.encode)) =
        some (0, g) ∧
      (∀ k, ∃ before block after,
        wrapAndDuplicate = before ++ (block ++ after) ∧ block.IsChain follows ∧
        streamContent g k = block.flatMap Entry.payload ∧
        ∀ i, streamOf g i = some k ↔
          before.length ≤ i ∧ i < before.length + block.length) ∧
      (∀ i e e' k k', wrapAndDuplicate[i]? = some e → wrapAndDuplicate[i + 1]? = some e' →
        streamOf g i = some k → streamOf g (i + 1) = some k' → (k ≠ k' ↔ ¬ follows e e')) :=
  streams_split_at_gaps _ [] (by decide)

/-! The expected number starts at 0xFFFF, so a log that starts there opens no file
before its first gap. -/

/-- The entries numbered `expected`, `expected + 1`, ... at the start of a log. -/
def leadingRun : BitVec 16 → List Entry → List Entry
  | _, [] => []
  | expected, e :: es => if e.seqno = expected then e :: leadingRun (expected + 1) es else []

theorem block_of_lt {expected : BitVec 16} {n k : Nat} {es : List Entry} (h : k < n) :
    Blocks.block Prod.snd (numbered expected n es) k = [] :=
  Blocks.block_eq_nil fun _ hp => Nat.ne_of_gt (Nat.lt_of_lt_of_le h (le_of_mem_numbered hp))

theorem block_eq_leadingRun (expected : BitVec 16) (n : Nat) (es : List Entry) :
    (Blocks.block Prod.snd (numbered expected n es) n).map Prod.fst = leadingRun expected es := by
  induction es generalizing expected with
  | nil => rfl
  | cons e es ih =>
      rw [numbered, leadingRun, Blocks.block_cons]
      by_cases hs : e.seqno = expected
      · rw [if_pos hs, if_pos hs, if_pos rfl, List.map_cons, hs, ih]
      · rw [if_neg hs, if_neg hs, if_neg (Nat.succ_ne_self n), block_of_lt (Nat.lt_succ_self n),
          List.map_nil]

/-- What is written and the payloads before the first file make up the log. -/
theorem payload_eq_leadingRun_append (filename : List Char) {es : List Entry}
    (h : ∀ e ∈ es, e.Sized) :
    es.flatMap Entry.payload = (leadingRun 0xFFFF es).flatMap Entry.payload ++
      allContent (converted (fun _ => true) filename es) := by
  have hcut := numbered_cutAt 0xFFFF 0 es
  have hall : (List.range ((converted (fun _ => true) filename es).opens.length + 1)).flatMap
      (Blocks.block Prod.snd (numbered 0xFFFF 0 es)) = numbered 0xFFFF 0 es :=
    Blocks.flatMap_block hcut.ordered fun p hp =>
      Nat.lt_succ_of_le (le_opens_of_mem_numbered (fun _ => true) h (initGlobals filename) hp)
  have hstream : streamContent (converted (fun _ => true) filename es) =
      fun k => (blockEntries es (k + 1)).flatMap Entry.payload :=
    funext fun _ => streamContent_converted (fun _ => true) filename h rfl
  calc es.flatMap Entry.payload
      = ((numbered 0xFFFF 0 es).map Prod.fst).flatMap Entry.payload := by rw [numbered_fst]
    _ = (List.range ((converted (fun _ => true) filename es).opens.length + 1)).flatMap
          fun n => (blockEntries es n).flatMap Entry.payload := by
        rw [← hall]
        simp only [blockEntries, List.map_flatMap, List.flatMap_assoc]
    _ = (leadingRun 0xFFFF es).flatMap Entry.payload ++
          allContent (converted (fun _ => true) filename es) := by
        rw [List.range_succ_eq_map, List.flatMap_cons, List.flatMap_map, allContent, blockEntries,
          block_eq_leadingRun]
        rw [hstream]

theorem mem_of_mem_leadingRun {expected : BitVec 16} {es : List Entry} {e : Entry}
    (h : e ∈ leadingRun expected es) : e ∈ es := by
  induction es generalizing expected with
  | nil => cases h
  | cons e' es ih =>
      rw [leadingRun] at h
      split at h
      · cases h with
        | head => exact List.mem_cons_self
        | tail _ h => exact List.mem_cons_of_mem e' (ih h)
      · cases h

theorem leadingRun_payload_eq_nil_iff {expected : BitVec 16} {es : List Entry}
    (h : ∀ e ∈ es, e.Sized) :
    (leadingRun expected es).flatMap Entry.payload = [] ↔
      ∀ e ∈ leadingRun expected es, e.data.length = 6 := by
  rw [List.flatMap_eq_nil_iff]
  apply forall₂_congr
  intro e he
  have hmin := (h e (mem_of_mem_leadingRun he)).1
  rw [Entry.payload, List.drop_eq_nil_iff]
  omega

/-- With every call succeeding, the streams hold the whole log exactly when no
datagram of the run starting at 0xFFFF carries data. -/
theorem payload_kept_iff (filename : List Char) {es : List Entry} (h : ∀ e ∈ es, e.Sized) :
    (∃ g, parseFile (fun _ => true) filename (some (es.flatMap Entry.encode)) = some (0, g) ∧
        allContent g = es.flatMap Entry.payload) ↔
      ∀ e ∈ leadingRun 0xFFFF es, e.data.length = 6 := by
  rw [← leadingRun_payload_eq_nil_iff h, parseFile_eq_converted _ filename h,
    payload_eq_leadingRun_append filename h]
  constructor
  · intro ⟨g, hg, hall⟩
    cases hg
    exact List.self_eq_append_left.mp hall
  · intro hnil
    exact ⟨_, rfl, by rw [hnil, List.nil_append]⟩

theorem payload_kept_of_wrapAndDuplicate :
    (∃ g, parseFile (fun _ => true) [] (some (wrapAndDuplicate.flatMap Entry.encode)) =
          some (0, g) ∧
        allContent g = wrapAndDuplicate.flatMap Entry.payload) ↔
      ∀ e ∈ leadingRun 0xFFFF wrapAndDuplicate, e.data.length = 6 :=
  payload_kept_iff [] (by decide)

/-- A log of one datagram numbered 0xFFFF: its payload is written nowhere. -/
theorem payload_lost_at_0xFFFF :
    (∀ e ∈ [Entry.ofPayload 0xFFFF [1]], e.Sized) ∧
      (parseFile (fun _ => true) [] (some ([Entry.ofPayload 0xFFFF [1]].flatMap Entry.encode))).map
        (fun r => (r.1, allContent r.2)) = some (0, []) ∧
      [Entry.ofPayload 0xFFFF [1]].flatMap Entry.payload = [1] := by
  decide +kernel

end TraceFS.Udp2nexus
