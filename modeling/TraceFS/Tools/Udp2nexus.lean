import Mathlib.Data.List.Basic
import Mathlib.Data.Nat.Digits.Defs
import TraceFS.Lib.BitSlices

/-!
The trace log converter `udp2nexus`: `parse_file` walks over the entries of a log
and dumps the payload of every datagram to an output file, starting a new file
at each gap in the sequence numbers.

The input stream is the list of bytes not read yet, on a little-endian host. Each
processed entry leaves a `Packet`, the record of what was printed and written for
it; an output stream is named by the number of the `fopen` call that opened it.
`fwrite` writes all it is given.
-/
namespace TraceFS.Udp2nexus
open BitSlices

abbrev Byte := BitVec 8

def dgramMax : Nat := 2048
def fnameBuf : Nat := 2048

/-- What `next_entry` prints and writes for one datagram. -/
structure Packet where
  tstamp0 : BitVec 32
  tstamp1 : BitVec 32
  ip : BitVec 32
  dgramlen : BitVec 32
  seqno : BitVec 16
  data : List Byte
  stream : Option Nat
  fwriteLen : Nat
  dumped : List Byte
  deriving DecidableEq, Repr

/-- The globals, the `fopen` calls made so far (path and success) and the packets
processed. -/
structure Globals where
  origFilename : List Char
  buffer : List Byte
  seqnoExp : BitVec 16
  stream : Option Nat
  filecount : BitVec 32
  fnamebin : List Char
  opens : List (List Char × Bool)
  packets : List Packet
  deriving DecidableEq, Repr

/-- `fread`: the items read completely, the bytes stored, the rest of the file. -/
def fread (size nmemb : Nat) (fptr : List Byte) : Nat × List Byte × List Byte :=
  let stored := fptr.take (size * nmemb)
  (stored.length / size, stored, fptr.drop (size * nmemb))

def le32 : List Byte → BitVec 32
  | b0 :: b1 :: b2 :: b3 :: _ =>
      b3.setWidth 32 <<< 24 ||| b2.setWidth 32 <<< 16 ||| b1.setWidth 32 <<< 8 ||| b0.setWidth 32
  | _ => 0

/-- `snprintf(_fnamebin, FNAMEBUF, "%s.%u", origFilename, _glblFilecount)`. An element of a
path stands for one byte of the C string. -/
def binName (origFilename : List Char) (filecount : BitVec 32) : List Char :=
  (origFilename ++ '.' :: Nat.toDigits 10 filecount.toNat).take (fnameBuf - 1)

/-- The branch on an unexpected sequence number: close, count, open the next
file. `fopen n` tells whether the `n`-th call succeeds. -/
def newBinFile (fopen : Nat → Bool) (g : Globals) : Globals :=
  let filecount := g.filecount + 1
  let fnamebin := binName g.origFilename filecount
  let ok := fopen g.opens.length
  { g with
    filecount := filecount
    fnamebin := fnamebin
    stream := if ok then some g.opens.length else none
    opens := g.opens ++ [(fnamebin, ok)] }

def bufferSeqno (buffer : List Byte) : BitVec 16 :=
  ((buffer.getD 5 0).setWidth 16 <<< 8) + (buffer.getD 4 0).setWidth 16

/-- The tail of `next_entry`: parse the buffered datagram and dump its payload. -/
def dumpDatagram (fopen : Nat → Bool) (g : Globals) (tstamp0 tstamp1 ip dgramlen : BitVec 32) :
    Globals :=
  let seqno := bufferSeqno g.buffer
  let g := if seqno ≠ g.seqnoExp then newBinFile fopen g else g
  let g := { g with seqnoExp := seqno + 1 }
  let fwriteLen := (dgramlen - 6).toNat
  let packet : Packet :=
    { tstamp0 := tstamp0, tstamp1 := tstamp1, ip := ip, dgramlen := dgramlen, seqno := seqno
      data := g.buffer.take dgramlen.toNat
      stream := g.stream
      fwriteLen := if g.stream.isSome then fwriteLen else 0
      dumped := if g.stream.isSome then (g.buffer.drop 6).take fwriteLen else [] }
  { g with packets := g.packets ++ [packet] }

/-- `next_entry`: its result, the globals and the rest of the file. -/
def nextEntry (fopen : Nat → Bool) (g : Globals) (fptr : List Byte) :
    Int × Globals × List Byte :=
  let (cnt0, tstamp0, fptr) := fread 4 1 fptr
  if cnt0 = 0 then (0, g, fptr)
  else
    let (cnt1, tstamp1, fptr) := fread 4 1 fptr
    let (cnt2, ip, fptr) := fread 4 1 fptr
    let (cnt3, len, fptr) := fread 4 1 fptr
    if cnt0 + cnt1 + cnt2 + cnt3 < 4 then (-1, g, fptr)
    else
      let dgramlen := le32 len
      if dgramMax < dgramlen.toNat then (-1, g, fptr)
      else
        let (cnt, data, fptr) := fread 1 dgramlen.toNat fptr
        let g := { g with buffer := data ++ g.buffer.drop data.length }
        if cnt < dgramlen.toNat then (-1, g, fptr)
        else (1, dumpDatagram fopen g (le32 tstamp0) (le32 tstamp1) (le32 ip) dgramlen, fptr)

/-- `while (next_entry(fptr) > 0);` with fuel for the iterations. -/
def entryLoop (fopen : Nat → Bool) : Nat → Globals → List Byte → Option Globals
  | 0, _, _ => none
  | fuel + 1, g, fptr =>
      let (ret, g, fptr) := nextEntry fopen g fptr
      if 0 < ret then entryLoop fopen fuel g fptr else some g

def initGlobals (filename : List Char) : Globals :=
  { origFilename := filename, buffer := List.replicate dgramMax 0, seqnoExp := 0xFFFF
    stream := none, filecount := 0, fnamebin := [], opens := [], packets := [] }

/-- `parse_file`; `log` is the content of the file, when it can be opened. Every
iteration but the last consumes an entry header. -/
def parseFile (fopen : Nat → Bool) (filename : List Char) (log : Option (List Byte)) :
    Option (Int × Globals) :=
  match log with
  | none => some (-1, initGlobals filename)
  | some bytes =>
      (entryLoop fopen (bytes.length + 1) (initGlobals filename) bytes).map fun g =>
        (0, { g with stream := none })

/-! Reading the log: the loop always ends, and over complete entries it is a fold. -/

theorem fread_append {size nmemb : Nat} {stored : List Byte} (h : stored.length = size * nmemb)
    (pos : 0 < size) (rest : List Byte) :
    fread size nmemb (stored ++ rest) = (nmemb, stored, rest) := by
  simp only [fread, ← h, List.take_left', List.drop_left', Prod.mk.injEq, and_true]
  rw [h, Nat.mul_div_cancel_left _ pos]

theorem nextEntry_consumes {fopen : Nat → Bool} {g g' : Globals} {fptr rest : List Byte}
    {ret : Int} (h : nextEntry fopen g fptr = (ret, g', rest)) (more : 0 < ret) :
    rest.length < fptr.length := by
  simp only [nextEntry, fread, Nat.mul_one] at h
  split at h
  · obtain rfl := (Prod.mk.inj h).1
    omega
  case isFalse hcnt =>
    have hlen : fptr.length ≠ 0 := by
      intro hz
      simp [hz] at hcnt
    split at h
    · obtain rfl := (Prod.mk.inj h).1
      omega
    · split at h
      · obtain rfl := (Prod.mk.inj h).1
        omega
      · split at h
        · obtain rfl := (Prod.mk.inj h).1
          omega
        · obtain rfl := (Prod.mk.inj (Prod.mk.inj h).2).2
          simp only [List.length_drop]
          omega

/-- The fuel of `parse_file` suffices: the converter ends on every log. -/
theorem entryLoop_isSome {fopen : Nat → Bool} {fuel : Nat} {g : Globals} {fptr : List Byte}
    (h : fptr.length < fuel) : (entryLoop fopen fuel g fptr).isSome = true := by
  induction fuel generalizing g fptr with
  | zero => omega
  | succ fuel ih =>
      cases hn : nextEntry fopen g fptr with
      | mk ret r =>
          simp only [entryLoop, hn]
          split
          case isTrue more =>
              have := nextEntry_consumes hn more
              exact ih (by omega)
          case isFalse => rfl

/-- A log entry as the logger writes it: three header words and a datagram. -/
structure Entry where
  tstamp0 : BitVec 32
  tstamp1 : BitVec 32
  ip : BitVec 32
  data : List Byte
  deriving DecidableEq, Repr

def bytes32 (w : BitVec 32) : List Byte :=
  [w.extractLsb' 0 8, w.extractLsb' 8 8, w.extractLsb' 16 8, w.extractLsb' 24 8]

def Entry.encode (e : Entry) : List Byte :=
  bytes32 e.tstamp0 ++ (bytes32 e.tstamp1 ++ (bytes32 e.ip ++
    (bytes32 (BitVec.ofNat 32 e.data.length) ++ e.data)))

theorem le32_bytes32 (w : BitVec 32) : le32 (bytes32 w) = w := by
  have hlow : (w.extractLsb' 0 8).setWidth 32 = placed w 0 8 := by rw [placed, BitVec.shiftLeft_zero]
  change placed w 24 8 ||| placed w 16 8 ||| placed w 8 8 ||| (w.extractLsb' 0 8).setWidth 32 = w
  rw [hlow, placed_eq_above w 24 8 (by decide), above_or_placed w 16 8, above_or_placed w 8 8,
    above_or_placed w 0 8, above_zero]

/-! What `next_entry` does with a complete entry, in terms of the datagram alone. -/

def Entry.seqno (e : Entry) : BitVec 16 := bufferSeqno e.data

def Entry.payload (e : Entry) : List Byte := e.data.drop 6

/-- A full header, and no more than the buffer holds. -/
def Entry.Sized (e : Entry) : Prop := 6 ≤ e.data.length ∧ e.data.length ≤ dgramMax

instance (e : Entry) : Decidable e.Sized := inferInstanceAs (Decidable (_ ∧ _))

/-- The globals after a complete entry. -/
def processEntry (fopen : Nat → Bool) (g : Globals) (e : Entry) : Globals :=
  dumpDatagram fopen { g with buffer := e.data ++ g.buffer.drop e.data.length }
    e.tstamp0 e.tstamp1 e.ip (BitVec.ofNat 32 e.data.length)

theorem toNat_dataLength {e : Entry} (h : e.data.length ≤ dgramMax) :
    (BitVec.ofNat 32 e.data.length).toNat = e.data.length := by
  rw [BitVec.toNat_ofNat]
  exact Nat.mod_eq_of_lt (Nat.lt_of_le_of_lt h (by decide))

theorem processEntry_buffer (fopen : Nat → Bool) (g : Globals) (e : Entry) :
    (processEntry fopen g e).buffer = e.data ++ g.buffer.drop e.data.length := by
  simp only [processEntry, dumpDatagram]
  split
  · rfl
  · rfl

/-- A gap opens one file. -/
theorem processEntry_opens_length (fopen : Nat → Bool) (g : Globals) (e : Entry) :
    (processEntry fopen g e).opens.length = g.opens.length +
      if bufferSeqno (e.data ++ g.buffer.drop e.data.length) = g.seqnoExp then 0 else 1 := by
  simp only [processEntry, dumpDatagram]
  by_cases hs : bufferSeqno (e.data ++ g.buffer.drop e.data.length) = g.seqnoExp
  · simp [hs]
  · simp [hs, newBinFile]

theorem nextEntry_complete (fopen : Nat → Bool) (g : Globals) {e : Entry}
    (h : e.data.length ≤ dgramMax) (rest : List Byte) :
    nextEntry fopen g (e.encode ++ rest) = (1, processEntry fopen g e, rest) := by
  have word (w : BitVec 32) (tail : List Byte) :
      fread 4 1 (bytes32 w ++ tail) = (1, bytes32 w, tail) :=
    fread_append rfl (by omega) tail
  have hlen := toNat_dataLength h
  have hdata : fread 1 e.data.length (e.data ++ rest) = (e.data.length, e.data, rest) :=
    fread_append (by omega) (by omega) rest
  simp only [nextEntry, Entry.encode, List.append_assoc, word, le32_bytes32, hlen, hdata]
  simp [Nat.not_lt.mpr h, processEntry]

theorem nextEntry_nil (fopen : Nat → Bool) (g : Globals) : nextEntry fopen g [] = (0, g, []) :=
  rfl

theorem entryLoop_complete (fopen : Nat → Bool) {es : List Entry}
    (h : ∀ e ∈ es, e.data.length ≤ dgramMax) (fuel : Nat) (g : Globals)
    (hfuel : es.length < fuel) :
    entryLoop fopen fuel g (es.flatMap Entry.encode) = some (es.foldl (processEntry fopen) g) := by
  induction es generalizing fuel g with
  | nil =>
      obtain ⟨fuel, rfl⟩ := Nat.exists_eq_succ_of_ne_zero (by omega : fuel ≠ 0)
      simp [entryLoop, nextEntry_nil]
  | cons e es ih =>
      obtain ⟨fuel, rfl⟩ := Nat.exists_eq_succ_of_ne_zero (by omega : fuel ≠ 0)
      have he := h e List.mem_cons_self
      have hes : ∀ e ∈ es, e.data.length ≤ dgramMax :=
        fun e' he' => h e' (List.mem_cons_of_mem e he')
      simp only [List.flatMap_cons, entryLoop, nextEntry_complete fopen g he, List.foldl_cons]
      exact ih hes fuel _ (by simpa using hfuel)

theorem length_le_flatMap_encode (es : List Entry) :
    es.length ≤ (es.flatMap Entry.encode).length := by
  induction es with
  | nil => rfl
  | cons e es ih =>
      simp only [List.flatMap_cons, List.length_cons, List.length_append, Entry.encode, bytes32]
      omega

/-- On a log of complete entries the converter processes them one by one. -/
theorem parseFile_complete (fopen : Nat → Bool) (filename : List Char) {es : List Entry}
    (h : ∀ e ∈ es, e.data.length ≤ dgramMax) :
    parseFile fopen filename (some (es.flatMap Entry.encode)) =
      some (0, { es.foldl (processEntry fopen) (initGlobals filename) with stream := none }) := by
  have fuel : es.length < (es.flatMap Entry.encode).length + 1 :=
    Nat.lt_succ_of_le (length_le_flatMap_encode es)
  simp only [parseFile, entryLoop_complete fopen h _ (initGlobals filename) fuel, Option.map_some]

end TraceFS.Udp2nexus
