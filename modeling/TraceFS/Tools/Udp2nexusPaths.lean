import TraceFS.Lib.NumberedNames
import TraceFS.Tools.Udplog

/-!
The output paths of `udp2nexus`.

An output file is opened for writing, and so emptied, at every gap in the sequence
numbers. Its path is the input path and the count of the gaps, printed into a buffer
of `FNAMEBUF` bytes. A path that does not fit is cut, and the result of `snprintf` is
not looked at.
-/
namespace TraceFS.Udp2nexus
open Udplog (recordFormat)

/-- The sequence number found for each entry. One that is too short to carry its own
shows the bytes an earlier one has left in the buffer. -/
def sequenceNumbers : List Byte → List Entry → List (BitVec 16)
  | _, [] => []
  | buffer, e :: es =>
      let buffer := e.data ++ buffer.drop e.data.length
      bufferSeqno buffer :: sequenceNumbers buffer es

/-- How often a number is not the expected one. -/
def gaps : BitVec 16 → List (BitVec 16) → Nat
  | _, [] => 0
  | expected, n :: ns => (if n = expected then 0 else 1) + gaps (n + 1) ns

/-- The sequence gaps of a log. -/
def logGaps (bytes : List Byte) : Nat :=
  gaps 0xFFFF (sequenceNumbers (List.replicate dgramMax 0) (recordFormat.entries bytes))

/-- The `n`-th output path of an input path, with a counter that does not wrap. -/
abbrev outputName (filename : List Char) (n : Nat) : List Char :=
  NumberedNames.name 10 (fnameBuf - 1) '.' filename n

abbrev outputNames (filename : List Char) (n : Nat) : List (List Char) :=
  NumberedNames.names 10 (fnameBuf - 1) '.' filename n

def Globals.paths (g : Globals) : List (List Char) := g.opens.map Prod.fst

/-- No output path is another one or the input path. Where the first one is the input
path, it alone shows it: what is read after that call is no longer the log. -/
def PathsKept (filename : List Char) (g : Globals) : Prop := g.paths.Nodup ∧ filename ∉ g.paths

theorem binName_ofNat {n : Nat} (h : n < 2 ^ 32) (filename : List Char) :
    binName filename (BitVec.ofNat 32 n) = outputName filename n := by
  rw [binName, BitVec.toNat_ofNat, Nat.mod_eq_of_lt h]
  rfl

/-- The counter and the paths follow the number of `fopen` calls. -/
structure Counted (filename : List Char) (g : Globals) : Prop where
  origFilename : g.origFilename = filename
  filecount : g.filecount = BitVec.ofNat 32 g.opens.length
  paths : g.opens.length < 2 ^ 32 → g.paths = outputNames filename g.opens.length

theorem initGlobals_counted (filename : List Char) : Counted filename (initGlobals filename) :=
  { origFilename := rfl, filecount := rfl, paths := fun _ => rfl }

section Entries
variable (fopen : Nat → Bool) {filename : List Char} {g : Globals}

theorem newBinFile_counted (h : Counted filename g) : Counted filename (newBinFile fopen g) := by
  have hlen : (newBinFile fopen g).opens.length = g.opens.length + 1 := List.length_append
  have hcount : g.filecount + 1 = BitVec.ofNat 32 (g.opens.length + 1) := by
    rw [h.filecount, BitVec.ofNat_add]
    rfl
  refine { origFilename := h.origFilename, filecount := ?_, paths := ?_ }
  · rw [hlen]
    exact hcount
  · intro hlt
    rw [hlen] at hlt
    have hpaths : (newBinFile fopen g).paths =
        g.paths ++ [binName g.origFilename (g.filecount + 1)] := List.map_append
    rw [hpaths, h.paths (by omega), h.origFilename, hcount, binName_ofNat hlt, hlen]
    exact (NumberedNames.names_succ g.opens.length).symm

theorem processEntry_counted (h : Counted filename g) (e : Entry) :
    Counted filename (processEntry fopen g e) := by
  have hbuffer (buffer : List Byte) : Counted filename { g with buffer := buffer } :=
    { origFilename := h.origFilename, filecount := h.filecount, paths := h.paths }
  simp only [processEntry, dumpDatagram]
  split
  · have hnew := newBinFile_counted fopen (hbuffer (e.data ++ g.buffer.drop e.data.length))
    exact { origFilename := hnew.origFilename, filecount := hnew.filecount, paths := hnew.paths }
  · exact { origFilename := h.origFilename, filecount := h.filecount, paths := h.paths }

theorem foldl_counted (h : Counted filename g) (es : List Entry) :
    Counted filename (es.foldl (processEntry fopen) g) ∧
      (es.foldl (processEntry fopen) g).opens.length =
        g.opens.length + gaps g.seqnoExp (sequenceNumbers g.buffer es) := by
  induction es generalizing g with
  | nil => exact ⟨h, rfl⟩
  | cons e es ih =>
      have ⟨hcounted, hlen⟩ := ih (processEntry_counted fopen h e)
      refine ⟨hcounted, ?_⟩
      have hexp : (processEntry fopen g e).seqnoExp =
          bufferSeqno (e.data ++ g.buffer.drop e.data.length) + 1 := rfl
      rw [List.foldl_cons, hlen, processEntry_opens_length, processEntry_buffer, hexp,
        Nat.add_assoc]
      rfl

end Entries

/-- The paths opened over a whole log. -/
theorem parseFile_paths (fopen : Nat → Bool) (filename : List Char) {bytes : List Byte}
    (h : logGaps bytes < 2 ^ 32) :
    ∃ g, parseFile fopen filename (some bytes) = some (0, g) ∧
      g.paths = outputNames filename (logGaps bytes) := by
  have ⟨buffer, hparse⟩ :=
    Udplog.parseFile_of_reads fopen filename (recordFormat.reads_entries bytes)
  have ⟨hcounted, hlen⟩ :=
    foldl_counted fopen (initGlobals_counted filename) (recordFormat.entries bytes)
  have hgaps : (initGlobals filename).opens.length +
      gaps (initGlobals filename).seqnoExp
        (sequenceNumbers (initGlobals filename).buffer (recordFormat.entries bytes)) =
      logGaps bytes := Nat.zero_add _
  rw [hgaps] at hlen
  refine ⟨_, hparse, ?_⟩
  have hpaths := hcounted.paths (by rw [hlen]; exact h)
  rw [hlen] at hpaths
  exact hpaths

/-- The paths stay apart exactly when the last of two or more is printed whole and
the input path does not fill the buffer. -/
theorem paths_kept_iff (fopen : Nat → Bool) (filename : List Char) (bytes : List Byte)
    (h : logGaps bytes < 2 ^ 32) :
    ∃ g, parseFile fopen filename (some bytes) = some (0, g) ∧
      (PathsKept filename g ↔
        (logGaps bytes ≤ 1 ∨
          filename.length + 1 + (Nat.toDigits 10 (logGaps bytes)).length ≤ fnameBuf - 1) ∧
        (logGaps bytes = 0 ∨ filename.length ≠ fnameBuf - 1)) := by
  have ⟨g, hparse, hpaths⟩ := parseFile_paths fopen filename h
  refine ⟨g, hparse, ?_⟩
  rw [PathsKept, hpaths]
  exact and_congr (NumberedNames.nodup_names_iff (by decide) (by decide))
    NumberedNames.stem_notMem_names_iff

/-- A datagram that carries a sequence number and no payload. -/
def bareEntry (seqno : BitVec 16) : Entry :=
  { tstamp0 := 0, tstamp1 := 0, ip := 0
    data := [0, 0, 0, 0, seqno.extractLsb' 0 8, seqno.extractLsb' 8 8] }

theorem paths_kept_two_segments :
    logGaps ((bareEntry 0).encode ++ (bareEntry 2).encode) = 2 ∧
      ∃ g, parseFile (fun _ => true) ['l', 'o', 'g']
          (some ((bareEntry 0).encode ++ (bareEntry 2).encode)) = some (0, g) ∧
        PathsKept ['l', 'o', 'g'] g := by
  have hgaps : logGaps ((bareEntry 0).encode ++ (bareEntry 2).encode) = 2 := by decide +kernel
  have ⟨g, hparse, hkept⟩ := paths_kept_iff (fun _ => true) ['l', 'o', 'g']
    ((bareEntry 0).encode ++ (bareEntry 2).encode) (by rw [hgaps]; decide)
  rw [hgaps] at hkept
  exact ⟨hgaps, g, hparse, hkept.mpr (by decide)⟩

/-- A path of 2047 characters, `././…/log`. -/
def deepPath : List Char := (List.replicate 1022 ['.', '/']).flatten ++ ['l', 'o', 'g']

/-- The first output file of that log is the log. -/
theorem log_opened_for_writing :
    deepPath.length = 2047 ∧ logGaps (bareEntry 0).encode = 1 ∧
      ∃ g, parseFile (fun _ => true) deepPath (some (bareEntry 0).encode) = some (0, g) ∧
        g.paths = [deepPath] ∧ ¬ PathsKept deepPath g := by
  have hlen : deepPath.length = fnameBuf - 1 := by decide +kernel
  have hgaps : logGaps (bareEntry 0).encode = 1 := by decide +kernel
  have ⟨g, hparse, hpaths⟩ := parseFile_paths (fun _ => true) deepPath
    (show logGaps (bareEntry 0).encode < 2 ^ 32 by rw [hgaps]; decide)
  have hown : g.paths = [deepPath] := by
    rw [hpaths, hgaps]
    exact congrArg (fun path => [path]) (NumberedNames.name_eq_stem_iff.mpr hlen)
  refine ⟨hlen, hgaps, g, hparse, hown, fun hkept => hkept.2 ?_⟩
  rw [hown]
  exact List.mem_singleton_self deepPath

end TraceFS.Udp2nexus
