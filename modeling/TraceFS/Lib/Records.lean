import Mathlib.Data.List.Basic

/-!
Self-delimiting records read one at a time from the front of a stream.

A record can be read exactly when the stream starts with its encoding. What a
reader visits is then the longest sequence of records the stream starts with, and
a stream cut anywhere keeps the records that lie before the cut.
-/
namespace Records

/-- An encoder and a reader that accepts the valid records and nothing else. -/
structure Format (B E : Type*) where
  encode : E → List B
  Valid : E → Prop
  next : List B → Option (E × List B)
  encode_ne_nil : ∀ e, encode e ≠ []
  next_eq_some_iff : ∀ {bs e rest}, next bs = some (e, rest) ↔ Valid e ∧ bs = encode e ++ rest

namespace Format
variable {B E : Type*} (F : Format B E)

def stream (es : List E) : List B := es.flatMap F.encode

@[simp] theorem stream_nil : F.stream [] = [] := rfl

@[simp] theorem stream_cons (e : E) (es : List E) :
    F.stream (e :: es) = F.encode e ++ F.stream es := rfl

/-- Reading from the front of `bs` visits `es` and stops at `rest`. -/
def Reads (bs : List B) (es : List E) (rest : List B) : Prop :=
  bs = F.stream es ++ rest ∧ (∀ e ∈ es, F.Valid e) ∧ F.next rest = none

variable {F}

theorem next_append {e : E} (h : F.Valid e) (rest : List B) :
    F.next (F.encode e ++ rest) = some (e, rest) :=
  F.next_eq_some_iff.mpr ⟨h, rfl⟩

theorem next_nil : F.next [] = none := by
  cases h : F.next [] with
  | none => rfl
  | some r =>
      have ⟨_, hnil⟩ := F.next_eq_some_iff.mp h
      exact absurd (List.append_eq_nil_iff.mp hnil.symm).1 (F.encode_ne_nil r.1)

theorem Reads.cons {e : E} {es : List E} {bs rest : List B} (he : F.Valid e)
    (h : F.Reads bs es rest) : F.Reads (F.encode e ++ bs) (e :: es) rest := by
  have ⟨hbs, hes, hstop⟩ := h
  refine ⟨?_, ?_, hstop⟩
  · rw [stream_cons, List.append_assoc, ← hbs]
  · intro e' he'
    cases he' with
    | head => exact he
    | tail _ hmem => exact hes e' hmem

/-- Reading at most `fuel` records from the front of `bs`. -/
def readAll (F : Format B E) : Nat → List B → List E × List B
  | 0, bs => ([], bs)
  | fuel + 1, bs =>
      match F.next bs with
      | none => ([], bs)
      | some (e, rest) =>
          let (es, rest') := readAll F fuel rest
          (e :: es, rest')

/-- The records the stream starts with. -/
def entries (F : Format B E) (bs : List B) : List E := (F.readAll bs.length bs).1

theorem reads_readAll {fuel : Nat} {bs : List B} (h : bs.length ≤ fuel) :
    F.Reads bs (F.readAll fuel bs).1 (F.readAll fuel bs).2 := by
  induction fuel generalizing bs with
  | zero =>
      have hnil : bs = [] := List.length_eq_zero_iff.mp (Nat.le_zero.mp h)
      rw [hnil]
      exact ⟨rfl, fun e he => absurd he List.not_mem_nil, next_nil⟩
  | succ fuel ih =>
      simp only [readAll]
      cases hnext : F.next bs with
      | none => exact ⟨rfl, fun e he => absurd he List.not_mem_nil, hnext⟩
      | some r =>
          have ⟨hvalid, hbs⟩ := F.next_eq_some_iff.mp hnext
          have hlen := congrArg List.length hbs
          have hpos := List.length_pos_iff.mpr (F.encode_ne_nil r.1)
          rw [List.length_append] at hlen
          have hrest := (ih (by omega : r.2.length ≤ fuel)).cons hvalid
          rwa [← hbs] at hrest

theorem reads_entries (bs : List B) :
    F.Reads bs (F.entries bs) (F.readAll bs.length bs).2 :=
  reads_readAll (Nat.le_refl _)

/-- Whatever valid records the stream starts with, the reader visits them. -/
theorem Reads.prefix_of {bs rest rest' : List B} {es es' : List E} (h : F.Reads bs es rest)
    (hes' : ∀ e ∈ es', F.Valid e) (hbs' : bs = F.stream es' ++ rest') : es' <+: es := by
  induction es' generalizing bs es with
  | nil => exact List.nil_prefix
  | cons e' es' ih =>
      have ⟨hbs, hes, hstop⟩ := h
      rw [stream_cons, List.append_assoc] at hbs'
      have hnext : F.next bs = some (e', F.stream es' ++ rest') := by
        rw [hbs']
        exact next_append (hes' e' List.mem_cons_self) _
      cases es with
      | nil =>
          rw [stream_nil, List.nil_append] at hbs
          rw [hbs, hstop] at hnext
          cases hnext
      | cons e es =>
          rw [hbs, stream_cons, List.append_assoc,
            next_append (hes e List.mem_cons_self)] at hnext
          have ⟨hhead, htail⟩ := Prod.mk.inj (Option.some.inj hnext)
          have hrest : F.Reads (F.stream es ++ rest) es rest :=
            ⟨rfl, fun e he => hes e (List.mem_cons_of_mem _ he), hstop⟩
          rw [hhead]
          exact List.prefix_cons_inj e' |>.mpr
            (ih hrest (fun e he => hes' e (List.mem_cons_of_mem _ he)) htail)

/-- A stream cut inside its first record yields no record. -/
theorem next_take_of_lt {e : E} (he : F.Valid e) {k : Nat} (hk : k < (F.encode e).length) :
    F.next ((F.encode e).take k) = none := by
  cases h : F.next ((F.encode e).take k) with
  | none => rfl
  | some r =>
      have ⟨hvalid, hcut⟩ := F.next_eq_some_iff.mp h
      have hwhole : F.encode e = F.encode r.1 ++ (r.2 ++ (F.encode e).drop k) := by
        rw [← List.append_assoc, ← hcut, List.take_append_drop]
      have hnext := next_append he []
      rw [List.append_nil, hwhole, next_append hvalid] at hnext
      have hsame := (Prod.mk.inj (Option.some.inj hnext)).1
      have hlen := congrArg List.length hcut
      rw [List.length_take, List.length_append, hsame] at hlen
      omega

/-- A cut stream is read up to the last record that ends before the cut. -/
theorem reads_take {es : List E} (hes : ∀ e ∈ es, F.Valid e) (k : Nat) :
    ∃ m rest, F.Reads ((F.stream es).take k) (es.take m) rest ∧
      ∀ i, i < es.length → (i < m ↔ (F.stream (es.take (i + 1))).length ≤ k) := by
  induction es generalizing k with
  | nil =>
      refine ⟨0, [], ⟨?_, ?_, next_nil⟩, ?_⟩
      · simp
      · intro e he
        exact absurd he List.not_mem_nil
      · intro i hi
        exact absurd hi (Nat.not_lt_zero i)
  | cons e es ih =>
      have he := hes e List.mem_cons_self
      by_cases hin : (F.encode e).length ≤ k
      · -- the first record is complete, the cut lies in the rest
        have ⟨m, rest, hr, hm⟩ :=
          ih (fun e he => hes e (List.mem_cons_of_mem _ he)) (k - (F.encode e).length)
        refine ⟨m + 1, rest, ?_, ?_⟩
        · rw [stream_cons, List.take_append, List.take_of_length_le hin]
          exact hr.cons he
        · intro i hi
          cases i with
          | zero => simp [hin]
          | succ i =>
              rw [Nat.add_lt_add_iff_right, hm i (by simpa using hi), List.take_succ_cons,
                stream_cons, List.length_append]
              omega
      · have hcut : (F.stream (e :: es)).take k = (F.encode e).take k := by
          rw [stream_cons, List.take_append_of_le_length (by omega)]
        refine ⟨0, (F.encode e).take k, ⟨?_, ?_, next_take_of_lt he (by omega)⟩, ?_⟩
        · simpa using hcut
        · intro e he
          exact absurd he List.not_mem_nil
        · intro i _
          rw [List.take_succ_cons, stream_cons, List.length_append]
          omega

end Format
end Records
