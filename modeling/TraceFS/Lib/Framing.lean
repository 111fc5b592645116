import Mathlib.Data.List.TakeWhile

/-!
Codes whose codewords are delimited by a continue flag.

Every symbol but the last of a codeword carries the flag, the last one does
not. A stream of codewords is then uniquely decodable, and a reader that starts
anywhere is aligned again after the first symbol without the flag.
-/
namespace Framing

variable {W E : Type*}

/-- A nonempty word whose symbols all continue except the last. -/
def Framed (cont : W → Bool) (ws : List W) : Prop :=
  ∃ body last, ws = body ++ [last] ∧ (∀ w ∈ body, cont w = true) ∧ cont last = false

/-- Cut a stream after every symbol without the flag; `acc` holds the symbols of
the open frame, which is dropped when the stream ends inside it. -/
def framesFrom (cont : W → Bool) : List W → List W → List (List W)
  | _, [] => []
  | acc, w :: ws =>
      if cont w then framesFrom cont (acc ++ [w]) ws
      else (acc ++ [w]) :: framesFrom cont [] ws

def frames (cont : W → Bool) (ws : List W) : List (List W) := framesFrom cont [] ws

/-- Discard up to and including the first symbol without the flag. -/
def resync (cont : W → Bool) (ws : List W) : List W := (ws.dropWhile cont).drop 1

theorem framesFrom_body {cont : W → Bool} {body : List W} (h : ∀ w ∈ body, cont w = true)
    (acc ws : List W) :
    framesFrom cont acc (body ++ ws) = framesFrom cont (acc ++ body) ws := by
  induction body generalizing acc with
  | nil => simp
  | cons w body ih =>
      have hw : cont w = true := h w List.mem_cons_self
      have hb : ∀ v ∈ body, cont v = true := fun v hv => h v (List.mem_cons_of_mem w hv)
      simp only [List.cons_append, framesFrom, hw, if_true, ih hb, List.append_assoc,
        List.nil_append]

theorem frames_framed {cont : W → Bool} {f : List W} (h : Framed cont f) (ws : List W) :
    frames cont (f ++ ws) = f :: frames cont ws := by
  obtain ⟨body, last, rfl, hbody, hlast⟩ := h
  rw [List.append_assoc, frames, framesFrom_body hbody]
  simp [framesFrom, hlast, frames]

theorem resync_suffix {cont : W → Bool} {body : List W} {last : W}
    (hbody : ∀ w ∈ body, cont w = true) (hlast : cont last = false) (ws : List W) :
    resync cont (body ++ last :: ws) = ws := by
  rw [resync, List.dropWhile_append_of_pos hbody, List.dropWhile_cons_of_neg (by simp [hlast])]
  rfl

theorem takeWhile_suffix {cont : W → Bool} {body : List W} {last : W}
    (hbody : ∀ w ∈ body, cont w = true) (hlast : cont last = false) (ws : List W) :
    (body ++ last :: ws).takeWhile cont = body := by
  rw [List.takeWhile_append_of_pos hbody, List.takeWhile_cons_of_neg (by simp [hlast])]
  simp

/-- An encoder with framed codewords and a decoder of single frames that
inverts it. -/
structure Code (W E : Type*) where
  cont : W → Bool
  encode : E → List W
  decodeFrame : List W → Option E
  framed : ∀ e, Framed cont (encode e)
  decode_encode : ∀ e, decodeFrame (encode e) = some e

namespace Code
variable (C : Code W E)

def stream (es : List E) : List W := es.flatMap C.encode

def decode (ws : List W) : Option (List E) := (frames C.cont ws).mapM C.decodeFrame

@[simp] theorem stream_nil : C.stream [] = [] := rfl

@[simp] theorem stream_cons (e : E) (es : List E) :
    C.stream (e :: es) = C.encode e ++ C.stream es := rfl

theorem stream_append (es fs : List E) : C.stream (es ++ fs) = C.stream es ++ C.stream fs :=
  List.flatMap_append

theorem decode_stream (es : List E) : C.decode (C.stream es) = some es := by
  induction es with
  | nil => rfl
  | cons e es ih =>
      rw [decode] at ih
      simp [decode, frames_framed (C.framed e), List.mapM_cons, C.decode_encode e, ih]

def offset (es : List E) (i : Nat) : Nat := (C.stream (es.take i)).length

@[simp] theorem offset_zero (es : List E) : C.offset es 0 = 0 := by simp [offset]

@[simp] theorem offset_succ (e : E) (es : List E) (i : Nat) :
    C.offset (e :: es) (i + 1) = (C.encode e).length + C.offset es i := by
  simp [offset]

/-- The position behind the first symbol without the flag at or after `k`. -/
def syncPoint (k : Nat) (ws : List W) : Nat := k + ((ws.drop k).takeWhile C.cont).length + 1

theorem syncPoint_append {f : List W} {k : Nat} (h : f.length ≤ k) (ws : List W) :
    C.syncPoint k (f ++ ws) = f.length + C.syncPoint (k - f.length) ws := by
  simp only [syncPoint, List.drop_append, List.drop_of_length_le h,
    List.nil_append]
  omega

/-- A reader that starts at symbol `k` and discards through the first symbol
without the flag is left with whole codewords: those of exactly the emissions
whose first symbol lies at or behind that point. -/
theorem resync_drop (es : List E) (k : Nat) :
    ∃ m, resync C.cont ((C.stream es).drop k) = C.stream (es.drop m) ∧
      ∀ i, i < es.length → (m ≤ i ↔ C.syncPoint k (C.stream es) ≤ C.offset es i) := by
  induction es generalizing k with
  | nil =>
      refine ⟨0, ?_, fun i hi => absurd hi (Nat.not_lt_zero i)⟩
      simp [resync]
  | cons e es ih =>
      obtain ⟨body, last, he, hbody, hlast⟩ := C.framed e
      have hlen : (C.encode e).length = body.length + 1 := by simp [he]
      by_cases hin : k ≤ body.length
      · -- the reader starts inside the first codeword and is aligned behind it
        have hdrop : (C.stream (e :: es)).drop k = body.drop k ++ last :: C.stream es := by
          simp [he, List.drop_append_of_le_length hin]
        have hbody' : ∀ w ∈ body.drop k, C.cont w = true :=
          fun w hw => hbody w (List.mem_of_mem_drop hw)
        refine ⟨1, ?_, ?_⟩
        · rw [hdrop, resync_suffix hbody' hlast]
          rfl
        · intro i _
          rw [syncPoint, hdrop, takeWhile_suffix hbody' hlast, List.length_drop]
          cases i with
          | zero => simp
          | succ i =>
              rw [offset_succ, hlen]
              omega
      · -- the first codeword lies before the reader
        have hle : (C.encode e).length ≤ k := by omega
        obtain ⟨m, hm, hpos⟩ := ih (k - (C.encode e).length)
        refine ⟨m + 1, ?_, ?_⟩
        · rw [stream_cons, List.drop_append, List.drop_of_length_le hle, List.nil_append, hm]
          rfl
        · intro i hi
          rw [stream_cons, C.syncPoint_append hle]
          cases i with
          | zero => simp [syncPoint]
          | succ i =>
              rw [offset_succ, Nat.add_le_add_iff_right, Nat.add_le_add_iff_left]
              exact hpos i (by simpa using hi)

end Code
end Framing
