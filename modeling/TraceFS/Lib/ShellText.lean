import Mathlib.Data.List.Dedup
import Mathlib.Data.List.DropRight
import Mathlib.Data.List.Lex
import Mathlib.Data.List.Sort
import Mathlib.Data.Char

/-!
Texts and lines as a shell script handles them: prefix and suffix removal, lines
passed through `sort`, and the first field of a line.
-/
namespace ShellText

abbrev Text := List Char

/-- `${x%%c*}` -/
def beforeFirst (c : Char) (x : Text) : Text := x.takeWhile (· ≠ c)

/-- `${x#*c}`; nothing is removed where `c` does not occur. -/
def afterFirst (c : Char) (x : Text) : Text :=
  match x.dropWhile (· ≠ c) with
  | [] => x
  | _ :: rest => rest

/-- `printf '%s\n' "${xs[@]}"`; without arguments the format is used once. -/
def printLines : List Text → List Text
  | [] => [[]]
  | lines => lines

/-- `sort` in byte order. -/
def sortLines (lines : List Text) : List Text := lines.insertionSort (· ≤ ·)

/-- Word splitting of a command's output at newlines. -/
def splitLines (lines : List Text) : List Text := lines.filter (· ≠ [])

def isBlank (c : Char) : Bool := c = ' ' || c = '\t'

/-- `awk '{print $1}'` -/
def firstField (line : Text) : Text := (line.dropWhile isBlank).takeWhile fun c => !isBlank c

/-- `$(...)` drops the newlines at the end. -/
def stripNewlines (x : Text) : Text := x.rdropWhile (· = '\n')

/-- `tr '[:upper:]' '[:lower:]'` -/
def lower (x : Text) : Text := x.map Char.toLower

/-- Splitting at a separator that is no blank: every occurrence ends a field, and
nothing behind the last one is no field. -/
def fields (sep : Char) (x : Text) : List Text :=
  let parts := x.splitOn sep
  if parts.getLast? = some [] then parts.dropLast else parts

def isGlob (c : Char) : Bool := c = '*' || c = '?' || c = '['

/-- Pathname expansion; `files` tells the names a pattern matches. -/
def expand (files : Text → List Text) (field : Text) : List Text :=
  if field.any isGlob then
    match files field with
    | [] => [field]
    | names => names
  else [field]

/-- The words of an unquoted expansion. -/
def words (files : Text → List Text) (sep : Char) (x : Text) : List Text :=
  (fields sep x).flatMap (expand files)

/-- `sort -u | wc -l` -/
def countDistinct (lines : List Text) : Nat := lines.dedup.length

theorem beforeFirst_append {c : Char} {x : Text} (hx : c ∉ x) (y : Text) :
    beforeFirst c (x ++ c :: y) = x := by
  rw [beforeFirst, List.takeWhile_append_of_pos]
  · simp
  · intro d hd
    rw [decide_eq_true_iff]
    intro hdc
    exact hx (hdc ▸ hd)

theorem afterFirst_append {c : Char} {x : Text} (hx : c ∉ x) (y : Text) :
    afterFirst c (x ++ c :: y) = y := by
  rw [afterFirst, List.dropWhile_append_of_pos]
  · simp
  · intro d hd
    rw [decide_eq_true_iff]
    intro hdc
    exact hx (hdc ▸ hd)

theorem firstField_append {x : Text} (hne : x ≠ []) (hx : ∀ c ∈ x, isBlank c = false) (y : Text) :
    firstField (x ++ ' ' :: y) = x := by
  have hdrop : (x ++ ' ' :: y).dropWhile isBlank = x ++ ' ' :: y := by
    cases x with
    | nil => exact absurd rfl hne
    | cons c x => rw [List.cons_append, List.dropWhile_cons_of_neg (by simp [hx c])]
  rw [firstField, hdrop, List.takeWhile_append_of_pos]
  · simp [isBlank]
  · intro c hc
    rw [hx c hc]
    rfl

theorem splitLines_eq {lines : List Text} (h : ∀ line ∈ lines, line ≠ []) :
    splitLines lines = lines :=
  List.filter_eq_self.mpr fun line hline => decide_eq_true (h line hline)

theorem countDistinct_eq_length {lines : List Text} :
    countDistinct lines = lines.length ↔ lines.Nodup := by
  constructor
  · intro h
    exact List.dedup_eq_self.mp ((List.dedup_sublist lines).eq_of_length h)
  · intro h
    rw [countDistinct, List.dedup_eq_self.mpr h]

section Fields
variable {sep : Char} {x : Text}

theorem intercalate_concat_nil {fs : List Text} (hne : fs ≠ []) :
    [sep].intercalate (fs ++ [[]]) = [sep].intercalate fs ++ [sep] := by
  induction fs with
  | nil => exact absurd rfl hne
  | cons f fs ih =>
      cases fs with
      | nil => simp [List.intercalate, List.intersperse]
      | cons g gs =>
          have hih := ih (List.cons_ne_nil g gs)
          simp only [List.intercalate, List.cons_append, List.intersperse, List.flatten_cons] at hih ⊢
          rw [hih]
          simp

theorem mem_splitOn {f : Text} (hf : f ∈ x.splitOn sep) : sep ∉ f ∧ ∀ c ∈ f, c ∈ x := by
  induction x generalizing f with
  | nil =>
      have hnil : f = [] := by simpa using hf
      rw [hnil]
      exact ⟨List.not_mem_nil, fun c hc => absurd hc List.not_mem_nil⟩
  | cons d x ih =>
      rw [List.splitOn_cons_eq_if_modifyHead] at hf
      split at hf
      case isTrue =>
        cases hf with
        | head => exact ⟨List.not_mem_nil, fun c hc => absurd hc List.not_mem_nil⟩
        | tail _ hf =>
            have ⟨hsep, hmem⟩ := ih hf
            exact ⟨hsep, fun c hc => List.mem_cons_of_mem d (hmem c hc)⟩
      case isFalse hd =>
        cases hparts : x.splitOn sep with
        | nil => exact absurd hparts (List.splitOn_ne_nil sep x)
        | cons g gs =>
            rw [hparts, List.modifyHead_cons] at hf
            cases hf with
            | head =>
                have hg : g ∈ x.splitOn sep := by
                  rw [hparts]
                  exact List.mem_cons_self
                have ⟨hsep, hmem⟩ := ih hg
                refine ⟨?_, ?_⟩
                · intro hin
                  cases hin with
                  | head => simp at hd
                  | tail _ hin => exact hsep hin
                · intro c hc
                  cases hc with
                  | head => exact List.mem_cons_self
                  | tail _ hc => exact List.mem_cons_of_mem d (hmem c hc)
            | tail _ hf =>
                have hin : f ∈ x.splitOn sep := by
                  rw [hparts]
                  exact List.mem_cons_of_mem g hf
                have ⟨hsep, hmem⟩ := ih hin
                exact ⟨hsep, fun c hc => List.mem_cons_of_mem d (hmem c hc)⟩

theorem mem_fields {f : Text} (hf : f ∈ fields sep x) : f ∈ x.splitOn sep := by
  simp only [fields] at hf
  split at hf
  · exact (List.dropLast_sublist _).subset hf
  · exact hf

/-- The texts that split into given fields. -/
theorem fields_eq_iff {fs : List Text} (hne : fs ≠ []) :
    fields sep x = fs ↔ (∀ f ∈ fs, sep ∉ f) ∧
      (x = [sep].intercalate fs ∧ fs.getLast? ≠ some [] ∨ x = [sep].intercalate fs ++ [sep]) := by
  constructor
  · intro h
    refine ⟨fun f hf => (mem_splitOn (mem_fields (h ▸ hf))).1, ?_⟩
    have hjoin : [sep].intercalate (x.splitOn sep) = x := List.intercalate_splitOn sep
    simp only [fields] at h
    split at h
    case isTrue hlast =>
      right
      have hparts : x.splitOn sep = fs ++ [[]] := by
        rw [← h]
        exact (List.dropLast_append_getLast? [] hlast).symm
      rw [← hjoin, hparts, intercalate_concat_nil hne]
    case isFalse hlast =>
      left
      rw [← h]
      exact ⟨hjoin.symm, hlast⟩
  · intro ⟨hsep, hor⟩
    cases hor with
    | inl hx =>
        rw [fields, hx.1, List.splitOn_intercalate sep hsep hne]
        exact if_neg hx.2
    | inr hx =>
        have hsep' : ∀ f ∈ fs ++ [[]], sep ∉ f := by
          intro f hf
          cases List.mem_append.mp hf with
          | inl hin => exact hsep f hin
          | inr hnil =>
              rw [List.mem_singleton.mp hnil]
              exact List.not_mem_nil
        rw [fields, hx, ← intercalate_concat_nil hne,
          List.splitOn_intercalate sep hsep' (by simp)]
        simp

theorem globFree_of_any (h : x.any isGlob = false) : ∀ c ∈ x, isGlob c = false := by
  intro c hc
  exact Bool.eq_false_iff.mpr (List.any_eq_false.mp h c hc)

theorem words_of_globFree (files : Text → List Text) (h : ∀ c ∈ x, isGlob c = false) :
    words files sep x = fields sep x := by
  have hexpand : ∀ f ∈ fields sep x, expand files f = [f] := by
    intro f hf
    have hmem := (mem_splitOn (mem_fields hf)).2
    have hplain : f.any isGlob = false := by
      rw [List.any_eq_false]
      intro c hc
      simp [h c (hmem c hc)]
    rw [expand, hplain]
    rfl
  rw [words, List.flatMap_congr hexpand]
  simp

theorem mem_intercalate {fs : List Text} {c : Char} (hc : c ∈ [sep].intercalate fs) :
    c = sep ∨ ∃ f ∈ fs, c ∈ f := by
  induction fs with
  | nil => cases hc
  | cons f fs ih =>
      cases fs with
      | nil =>
          have hf : c ∈ f := by simpa [List.intercalate, List.intersperse] using hc
          exact .inr ⟨f, List.mem_cons_self, hf⟩
      | cons g gs =>
          simp only [List.intercalate, List.intersperse, List.flatten_cons, List.mem_append,
            List.mem_singleton] at hc ih
          cases hc with
          | inl hf => exact .inr ⟨f, List.mem_cons_self, hf⟩
          | inr hc =>
              cases hc with
              | inl hsep => exact .inl hsep
              | inr hrest =>
                  cases ih hrest with
                  | inl hsep => exact .inl hsep
                  | inr hin =>
                      have ⟨h, hh, hc⟩ := hin
                      exact .inr ⟨h, List.mem_cons_of_mem f hh, hc⟩

theorem intercalate_inj {fs gs : List Text} (hfs : fs ≠ []) (hgs : gs ≠ [])
    (hf : ∀ f ∈ fs, sep ∉ f) (hg : ∀ g ∈ gs, sep ∉ g)
    (h : [sep].intercalate fs = [sep].intercalate gs) : fs = gs := by
  rw [← List.splitOn_intercalate sep hf hfs, h, List.splitOn_intercalate sep hg hgs]

/-- A separator at the end is one field more. -/
theorem intercalate_ne_concat {fs gs : List Text} (hfs : fs ≠ []) (hgs : gs ≠ [])
    (hf : ∀ f ∈ fs, sep ∉ f) (hg : ∀ g ∈ gs, sep ∉ g) (hlen : fs.length = gs.length) :
    [sep].intercalate fs ≠ [sep].intercalate gs ++ [sep] := by
  intro h
  rw [← intercalate_concat_nil hgs] at h
  have hg' : ∀ g ∈ gs ++ [[]], sep ∉ g := by
    intro g hin
    cases List.mem_append.mp hin with
    | inl hin => exact hg g hin
    | inr hnil =>
        rw [List.mem_singleton.mp hnil]
        exact List.not_mem_nil
  have hsame := intercalate_inj hfs (List.append_ne_nil_of_right_ne_nil gs (by simp)) hf hg' h
  rw [hsame, List.length_append] at hlen
  simp at hlen

end Fields

/-! Lower case leaves everything but letters alone. -/

theorem toNat_toLower (c : Char) :
    c.toLower.toNat = if 65 ≤ c.toNat ∧ c.toNat ≤ 90 then c.toNat + 32 else c.toNat := by
  by_cases h : c.val ≥ 'A'.val ∧ c.val ≤ 'Z'.val
  · have hn : 65 ≤ c.toNat ∧ c.toNat ≤ 90 := h
    have hlower : c.toLower.toNat = (c.val + 32).toNat := congrArg Char.toNat (dif_pos h)
    have h32 : (c.val + 32).toNat = c.val.toNat + 32 := by
      rw [UInt32.toNat_add]
      have hle : c.val.toNat ≤ 90 := hn.2
      exact Nat.mod_eq_of_lt (show c.val.toNat + 32 < 2 ^ 32 by omega)
    rw [if_pos hn, hlower]
    exact h32
  · have hn : ¬(65 ≤ c.toNat ∧ c.toNat ≤ 90) := h
    rw [if_neg hn]
    exact congrArg Char.toNat (dif_neg h)

theorem toLower_eq_iff {c d : Char} (hd : d.toNat < 65) : c.toLower = d ↔ c = d := by
  rw [← Char.toNat_inj, ← Char.toNat_inj, toNat_toLower]
  split <;> omega

theorem isGlob_toLower (c : Char) : isGlob c.toLower = isGlob c := by
  have hbracket : c.toLower = '[' ↔ c = '[' := by
    rw [← Char.toNat_inj, ← Char.toNat_inj, toNat_toLower]
    change _ = 91 ↔ _ = 91
    split <;> omega
  have hstar : c.toLower = '*' ↔ c = '*' := toLower_eq_iff (by decide)
  have hmark : c.toLower = '?' ↔ c = '?' := toLower_eq_iff (by decide)
  simp only [isGlob, hstar, hmark, hbracket]

theorem splitOn_map (f : Char → Char) {sep : Char} (hsep : ∀ c, f c = sep ↔ c = sep) (x : Text) :
    (x.map f).splitOn sep = (x.splitOn sep).map (·.map f) := by
  induction x with
  | nil => rfl
  | cons c x ih =>
      rw [List.map_cons, List.splitOn_cons_eq_if_modifyHead, List.splitOn_cons_eq_if_modifyHead, ih]
      by_cases hc : c = sep
      · rw [if_pos (beq_iff_eq.mpr ((hsep c).mpr hc)), if_pos (beq_iff_eq.mpr hc)]
        rfl
      · rw [if_neg (mt beq_iff_eq.mp (mt (hsep c).mp hc)), if_neg (mt beq_iff_eq.mp hc)]
        cases x.splitOn sep with
        | nil => rfl
        | cons g gs => rfl

theorem fields_lower {sep : Char} (hsep : sep.toNat < 65) (x : Text) :
    fields sep (lower x) = (fields sep x).map lower := by
  have hsplit := splitOn_map Char.toLower (fun c => toLower_eq_iff (c := c) hsep) x
  have hlast : (lower x).splitOn sep = (x.splitOn sep).map lower := hsplit
  simp only [fields, hlast, List.getLast?_map, Option.map_eq_some_iff]
  have hnil : (∃ a, (x.splitOn sep).getLast? = some a ∧ lower a = []) ↔
      (x.splitOn sep).getLast? = some [] := by
    constructor
    · intro ⟨a, ha, hempty⟩
      rw [ha, List.map_eq_nil_iff.mp hempty]
    · intro h
      exact ⟨[], h, rfl⟩
  by_cases h : (x.splitOn sep).getLast? = some []
  · rw [if_pos (hnil.mpr h), if_pos h, List.map_dropLast]
  · rw [if_neg (mt hnil.mp h), if_neg h]

theorem stripNewlines_lower (x : Text) : stripNewlines (lower x) = lower (stripNewlines x) := by
  have hcomp : ((fun c => decide (c = '\n')) ∘ Char.toLower) = fun c => decide (c = '\n') := by
    funext c
    exact decide_eq_decide.mpr (toLower_eq_iff (by decide))
  simp only [stripNewlines, lower, List.rdropWhile, ← List.map_reverse, List.dropWhile_map, hcomp]

/-- Newlines at the end are all that is dropped. -/
theorem stripNewlines_eq_iff {x y : Text} (hy : '\n' ∉ y) :
    stripNewlines x = y ↔ ∃ n, x = y ++ List.replicate n '\n' := by
  constructor
  · intro h
    refine ⟨(x.rtakeWhile (· = '\n')).length, ?_⟩
    have htail : x.rtakeWhile (· = '\n') =
        List.replicate (x.rtakeWhile (· = '\n')).length '\n' := by
      rw [List.eq_replicate_iff]
      refine ⟨rfl, fun c hc => ?_⟩
      exact of_decide_eq_true (List.mem_rtakeWhile_imp (p := fun c => decide (c = '\n')) hc)
    rw [← htail, ← h]
    exact (List.rdropWhile_append_rtakeWhile ..).symm
  · intro ⟨n, hx⟩
    rw [hx]
    clear hx
    induction n with
    | zero =>
        rw [List.replicate_zero, List.append_nil, stripNewlines, List.rdropWhile_eq_self_iff]
        intro hne hlast
        exact hy (of_decide_eq_true hlast ▸ List.getLast_mem hne)
    | succ n ih =>
        rw [List.replicate_succ', ← List.append_assoc, stripNewlines,
          List.rdropWhile_concat_pos (fun c => decide (c = '\n')) _ _ (decide_eq_true rfl)]
        exact ih

end ShellText
