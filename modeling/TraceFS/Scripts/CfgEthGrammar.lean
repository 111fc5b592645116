import TraceFS.Scripts.CfgEth

/-!
The arguments `trc_fs_cfg_eth.sh` accepts, against the grammar of its usage message.

Field splitting ends a field at every separator but reads nothing behind the last
one, a command substitution drops newlines, and `test` fails without refusing an
octet that is too long for it.
-/
namespace TraceFS.CfgEth
open Numerals ShellText

/-- Either case. -/
def isHexDigit (c : Char) : Bool := isLowerHex c.toLower

def IsMacGroup (g : Text) : Prop := g.length = 2 ∧ ∀ c ∈ g, isHexDigit c = true

/-- Decimal digits. -/
def IsIpGroup (g : Text) : Prop := g ≠ [] ∧ ∀ c ∈ g, c.isDigit = true

def MacGrammar (arg : Text) : Prop :=
  ∃ gs : List Text, gs.length = 6 ∧ (∀ g ∈ gs, IsMacGroup g) ∧ arg = [':'].intercalate gs

def IpGrammar (arg : Text) : Prop :=
  ∃ gs : List Text, gs.length = 4 ∧
    (∀ g ∈ gs, IsIpGroup g ∧ ∃ d, readBase 10 g = some d ∧ d ≤ 255) ∧
    arg = ['.'].intercalate gs

/-- The script reaches the device for the arguments of its grammar and refuses all others. -/
def ObeysGrammar (macArg ipArg : Text) (run : Outcome) : Prop :=
  (run.ops ≠ [] ↔ MacGrammar macArg ∧ IpGrammar ipArg) ∧
    (¬(MacGrammar macArg ∧ IpGrammar ipArg) → run.status ≠ 0 ∧ run.ops = [])

def optional (c : Char) (present : Bool) : Text := if present then [c] else []

/-- Six groups, one more colon perhaps, and newlines. -/
def MacForm (ms : List Text) (colon : Bool) (newlines : Nat) (arg : Text) : Prop :=
  ms.length = 6 ∧ (∀ m ∈ ms, IsMacGroup m) ∧
    arg = [':'].intercalate ms ++ optional ':' colon ++ List.replicate newlines '\n'

/-- Four groups, below 256 or no `intmax_t`, and one more dot perhaps. -/
def IpForm (os : List Text) (dot : Bool) (arg : Text) : Prop :=
  os.length = 4 ∧ (∀ o ∈ os, Accepted o) ∧ arg = ['.'].intercalate os ++ optional '.' dot

/-- The arguments have both forms, with something that is not in the grammar. -/
def Tolerated (macArg ipArg : Text) : Prop :=
  ∃ ms colon newlines os dot, MacForm ms colon newlines macArg ∧ IpForm os dot ipArg ∧
    (colon = true ∨ 0 < newlines ∨ dot = true ∨
      ∃ o ∈ os, ∃ d, readBase 10 o = some d ∧ 2 ^ 63 ≤ d)

/-! Groups and separators. -/

theorem toLower_of_isHexDigit {c : Char} (h : isHexDigit c = true) {d : Char}
    (hd : d.toNat < 65) (hno : isLowerHex d = false) : c ≠ d := by
  intro heq
  rw [isHexDigit, (toLower_eq_iff hd).mpr heq, hno] at h
  cases h

theorem IsMacGroup.ne_nil {g : Text} (h : IsMacGroup g) : g ≠ [] := by
  intro hnil
  rw [IsMacGroup, hnil] at h
  cases h.1

theorem IsMacGroup.not_mem {g : Text} (h : IsMacGroup g) {d : Char} (hd : d.toNat < 65)
    (hno : isLowerHex d = false) : d ∉ g :=
  fun hin => toLower_of_isHexDigit (h.2 d hin) hd hno rfl

theorem newline_not_mem {ms : List Text} (hall : ∀ m ∈ ms, IsMacGroup m) (colon : Bool) :
    '\n' ∉ [':'].intercalate ms ++ optional ':' colon := by
  intro hin
  cases List.mem_append.mp hin with
  | inl hin =>
      cases mem_intercalate hin with
      | inl hcolon => cases hcolon
      | inr hgroup =>
          have ⟨m, hm, hin⟩ := hgroup
          exact (hall m hm).not_mem (by decide) rfl hin
  | inr hin =>
      cases colon with
      | false => cases hin
      | true => cases List.mem_singleton.mp hin

theorem not_mem_of_digits {g : Text} (h : ∀ c ∈ g, c.isDigit = true) : '.' ∉ g := by
  intro hin
  cases h '.' hin

theorem checkMacOctet_lower {g : Text} : checkMacOctet (lower g) = true ↔ IsMacGroup g := by
  rw [checkMacOctet, Bool.and_eq_true, decide_eq_true_eq, lower, List.length_map, List.all_map,
    List.all_eq_true]
  exact Iff.rfl

theorem getLast?_ne_nil {gs : List Text} (h : ∀ g ∈ gs, g ≠ []) : gs.getLast? ≠ some [] := by
  intro hlast
  exact h [] (List.mem_of_getLast? hlast) rfl

/-- Split at a separator and rejoined, with one more separator perhaps. -/
theorem fields_eq_iff_optional {sep : Char} {x : Text} {gs : List Text} (hne : gs ≠ [])
    (hgs : ∀ g ∈ gs, g ≠ [] ∧ sep ∉ g) :
    fields sep x = gs ↔ ∃ more, x = [sep].intercalate gs ++ optional sep more := by
  rw [fields_eq_iff hne]
  constructor
  · intro ⟨_, hor⟩
    cases hor with
    | inl hx => exact ⟨false, by rw [hx.1]; simp [optional]⟩
    | inr hx => exact ⟨true, hx⟩
  · intro ⟨more, hx⟩
    refine ⟨fun g hg => (hgs g hg).2, ?_⟩
    cases more with
    | false =>
        rw [optional, if_neg Bool.false_ne_true, List.append_nil] at hx
        exact .inl ⟨hx, getLast?_ne_nil fun g hg => (hgs g hg).1⟩
    | true => exact .inr hx

/-- One group list only, and no separator behind it. -/
theorem optional_unique {sep : Char} {gs hs : List Text} {more : Bool} (hlen : gs.length = hs.length)
    (hne : gs ≠ []) (hgs : ∀ g ∈ gs, sep ∉ g) (hhs : ∀ h ∈ hs, sep ∉ h)
    (h : [sep].intercalate gs = [sep].intercalate hs ++ optional sep more) :
    more = false ∧ gs = hs := by
  have hne' : hs ≠ [] := by
    rw [← List.length_pos_iff, ← hlen, List.length_pos_iff]
    exact hne
  cases more with
  | false =>
      rw [optional, if_neg Bool.false_ne_true, List.append_nil] at h
      exact ⟨rfl, intercalate_inj hne hne' hgs hhs h⟩
  | true => exact absurd h (intercalate_ne_concat hne hne' hgs hhs hlen)

/-! The accepted arguments. -/

theorem parseMac_isSome {files : Text → List Text} {x : Text} :
    (parseMac files x).isSome = true ↔
      (words files ':' x).length = 6 ∧ ∀ m ∈ words files ':' x, checkMacOctet m = true := by
  rw [Option.isSome_iff_exists]
  constructor
  · intro ⟨regs, h⟩
    have ⟨m1, m2, m3, m4, m5, m6, hwords, hall, _⟩ := parseMac_eq_some.mp h
    rw [hwords]
    exact ⟨rfl, hall⟩
  · intro ⟨hlen, hall⟩
    match hwords : words files ':' x, hlen with
    | [m1, m2, m3, m4, m5, m6], _ =>
        rw [hwords] at hall
        exact ⟨_, parseMac_eq_some.mpr ⟨m1, m2, m3, m4, m5, m6, hwords, hall, rfl, rfl⟩⟩

theorem macText_eq (arg : Text) : macText arg = lower (stripNewlines arg) := stripNewlines_lower arg

theorem globFree_macText {arg : Text} (h : ∀ c ∈ arg, isGlob c = false) :
    ∀ c ∈ macText arg, isGlob c = false := by
  intro c hc
  have ⟨d, hd, hlow⟩ := List.mem_map.mp ((List.rdropWhile_prefix _ _).subset hc)
  rw [← hlow, isGlob_toLower]
  exact h d hd

section Forms
variable (files : Text → List Text) {arg : Text} (hglob : ∀ c ∈ arg, isGlob c = false)
include hglob

theorem parseMac_isSome_iff : (parseMac files (macText arg)).isSome = true ↔
    ∃ ms colon newlines, MacForm ms colon newlines arg := by
  have hcolon : ':'.toNat < 65 := by decide
  have hwords : words files ':' (macText arg) = (fields ':' (stripNewlines arg)).map lower := by
    rw [words_of_globFree files (globFree_macText hglob), macText_eq, fields_lower hcolon]
  rw [parseMac_isSome, hwords, List.length_map]
  simp only [List.mem_map, forall_exists_index, and_imp, forall_apply_eq_imp_iff₂,
    checkMacOctet_lower]
  constructor
  · intro ⟨hlen, hall⟩
    have hne : fields ':' (stripNewlines arg) ≠ [] := List.ne_nil_of_length_eq_add_one hlen
    have ⟨colon, hx⟩ := (fields_eq_iff_optional hne fun g hg =>
      ⟨(hall g hg).ne_nil, (hall g hg).not_mem hcolon rfl⟩).mp rfl
    have ⟨newlines, harg⟩ := (stripNewlines_eq_iff (newline_not_mem hall colon)).mp hx
    exact ⟨_, colon, newlines, hlen, hall, harg⟩
  · intro ⟨ms, colon, newlines, hlen, hall, harg⟩
    have hne : ms ≠ [] := List.ne_nil_of_length_eq_add_one hlen
    have hx := (stripNewlines_eq_iff (newline_not_mem hall colon)).mpr ⟨newlines, harg⟩
    have hfields := (fields_eq_iff_optional hne fun g hg =>
      ⟨(hall g hg).ne_nil, (hall g hg).not_mem hcolon rfl⟩).mpr ⟨colon, hx⟩
    rw [hfields]
    exact ⟨hlen, hall⟩

theorem parseIp_isSome_iff : (parseIp files arg).isSome = true ↔ ∃ os dot, IpForm os dot arg := by
  have hwords : words files '.' arg = fields '.' arg := words_of_globFree files hglob
  rw [Option.isSome_iff_exists]
  constructor
  · intro ⟨ipReg, h⟩
    have ⟨hlen, hall, _⟩ := parseIp_eq_some.mp h
    rw [hwords] at hlen hall
    have hne : fields '.' arg ≠ [] := List.ne_nil_of_length_eq_add_one hlen
    have ⟨dot, hx⟩ := (fields_eq_iff_optional hne fun o ho =>
      ⟨(hall o ho).1, not_mem_of_digits (hall o ho).2.1⟩).mp rfl
    exact ⟨_, dot, hlen, hall, hx⟩
  · intro ⟨os, dot, hlen, hall, harg⟩
    have hne : os ≠ [] := List.ne_nil_of_length_eq_add_one hlen
    have hfields := (fields_eq_iff_optional hne fun o ho =>
      ⟨(hall o ho).1, not_mem_of_digits (hall o ho).2.1⟩).mpr ⟨dot, harg⟩
    rw [← hwords] at hfields
    exact ⟨_, parseIp_eq_some.mpr (by rw [hfields]; exact ⟨hlen, hall, rfl⟩)⟩

end Forms

/-! The grammar is what the two forms leave without their extras. -/

theorem MacGrammar.form {arg : Text} (h : MacGrammar arg) : ∃ ms, MacForm ms false 0 arg := by
  have ⟨gs, hlen, hall, harg⟩ := h
  exact ⟨gs, hlen, hall, by rw [harg]; simp [optional]⟩

theorem IpGrammar.form {arg : Text} (h : IpGrammar arg) :
    ∃ os, IpForm os false arg ∧ ∀ o ∈ os, ∃ d, readBase 10 o = some d ∧ d ≤ 255 := by
  have ⟨gs, hlen, hall, harg⟩ := h
  refine ⟨gs, ⟨hlen, ?_, by rw [harg]; simp [optional]⟩, fun o ho => (hall o ho).2⟩
  intro o ho
  have ⟨⟨hne, hdigits⟩, d, hd, hle⟩ := hall o ho
  exact ⟨hne, hdigits, d, hd, .inl hle⟩

theorem MacForm.plain {ms : List Text} {colon : Bool} {newlines : Nat} {arg : Text}
    (hform : MacForm ms colon newlines arg) (h : MacGrammar arg) : colon = false ∧ newlines = 0 := by
  have ⟨hlen, hall, harg⟩ := hform
  have ⟨gs, hglen, hgall, hgarg⟩ := h
  have hnewlines : newlines = 0 := by
    have hplain := newline_not_mem hgall false
    rw [optional, if_neg Bool.false_ne_true, List.append_nil, ← hgarg, harg] at hplain
    cases newlines with
    | zero => rfl
    | succ n => exact absurd (List.mem_append_right _ (by simp)) hplain
  rw [hnewlines, List.replicate_zero, List.append_nil, hgarg] at harg
  have hsep : ∀ g ∈ gs, ':' ∉ g := fun g hg => (hgall g hg).not_mem (by decide) rfl
  have hsep' : ∀ m ∈ ms, ':' ∉ m := fun m hm => (hall m hm).not_mem (by decide) rfl
  have hne : gs ≠ [] := List.ne_nil_of_length_eq_add_one hglen
  exact ⟨(optional_unique (by rw [hglen, hlen]) hne hsep hsep' harg).1, hnewlines⟩

theorem IpForm.plain {os : List Text} {dot : Bool} {arg : Text} (hform : IpForm os dot arg)
    (h : IpGrammar arg) : dot = false ∧ ∀ o ∈ os, ∃ d, readBase 10 o = some d ∧ d ≤ 255 := by
  have ⟨hlen, hall, harg⟩ := hform
  have ⟨gs, hglen, hgall, hgarg⟩ := h
  rw [hgarg] at harg
  have hsep : ∀ g ∈ gs, '.' ∉ g := fun g hg => not_mem_of_digits (hgall g hg).1.2
  have hsep' : ∀ o ∈ os, '.' ∉ o := fun o ho => not_mem_of_digits (hall o ho).2.1
  have hne : gs ≠ [] := List.ne_nil_of_length_eq_add_one hglen
  have ⟨hdot, hsame⟩ := optional_unique (by rw [hglen, hlen]) hne hsep hsep' harg
  refine ⟨hdot, fun o ho => ?_⟩
  rw [← hsame] at ho
  exact (hgall o ho).2

theorem MacForm.grammar {ms : List Text} {arg : Text} (h : MacForm ms false 0 arg) :
    MacGrammar arg := by
  have ⟨hlen, hall, harg⟩ := h
  exact ⟨ms, hlen, hall, by simpa [optional] using harg⟩

theorem IpForm.grammar {os : List Text} {arg : Text} (h : IpForm os false arg)
    (hsmall : ∀ o ∈ os, ∃ d, readBase 10 o = some d ∧ d < 2 ^ 63) : IpGrammar arg := by
  have ⟨hlen, hall, harg⟩ := h
  refine ⟨os, hlen, ?_, by simpa [optional] using harg⟩
  intro o ho
  have ⟨hne, hdigits, d, hd, hrange⟩ := hall o ho
  have ⟨d', hd', hlt⟩ := hsmall o ho
  cases hd.symm.trans hd'
  exact ⟨⟨hne, hdigits⟩, d, hd, by omega⟩

theorem ops_ne_nil_iff (files : Text → List Text) {macArg ipArg : Text}
    (hmac : ∀ c ∈ macArg, isGlob c = false) (hip : ∀ c ∈ ipArg, isGlob c = false) :
    (script files [macArg, ipArg]).ops ≠ [] ↔
      (∃ ms colon newlines, MacForm ms colon newlines macArg) ∧ ∃ os dot, IpForm os dot ipArg := by
  rw [← parseMac_isSome_iff files hmac, ← parseIp_isSome_iff files hip]
  cases script_cases files macArg ipArg with
  | inl htaken =>
      have ⟨macReg0, macReg1, ipReg, hmac, hip, hrun⟩ := htaken
      rw [hmac, hip, hrun]
      simp [configure_ops_ne_nil]
  | inr hrefused =>
      rw [hrefused.2]
      refine ⟨fun h => absurd rfl h, fun ⟨hmac, hip⟩ => ?_⟩
      cases hrefused.1 with
      | inl h => simp [h] at hmac
      | inr h => simp [h] at hip

theorem usage_of_ops_eq_nil (files : Text → List Text) {macArg ipArg : Text}
    (h : (script files [macArg, ipArg]).ops = []) : script files [macArg, ipArg] = usage := by
  cases script_cases files macArg ipArg with
  | inl htaken =>
      have ⟨macReg0, macReg1, ipReg, _, _, hrun⟩ := htaken
      rw [hrun] at h
      exact absurd h (configure_ops_ne_nil macReg0 macReg1 ipReg)
  | inr hrefused => exact hrefused.2

/-- What is accepted beyond the grammar are the forms with a separator or newlines at the
end, or with an octet that `test` cannot read. -/
theorem obeysGrammar_iff (files : Text → List Text) {macArg ipArg : Text}
    (hmac : ∀ c ∈ macArg, isGlob c = false) (hip : ∀ c ∈ ipArg, isGlob c = false) :
    ObeysGrammar macArg ipArg (script files [macArg, ipArg]) ↔ ¬Tolerated macArg ipArg := by
  have haccepted := ops_ne_nil_iff files hmac hip
  constructor
  · intro ⟨hreach, _⟩ htolerated
    have ⟨ms, colon, newlines, os, dot, hm, ho, hextra⟩ := htolerated
    have ⟨hmgrammar, hogrammar⟩ := hreach.mp (haccepted.mpr ⟨⟨ms, colon, newlines, hm⟩, os, dot, ho⟩)
    have ⟨hcolon, hnewlines⟩ := hm.plain hmgrammar
    have ⟨hdot, hsmall⟩ := ho.plain hogrammar
    rcases hextra with h | h | h | ⟨o, ho, d, hd, hbig⟩
    · rw [hcolon] at h
      cases h
    · omega
    · rw [hdot] at h
      cases h
    · have ⟨d', hd', hle⟩ := hsmall o ho
      cases hd.symm.trans hd'
      omega
  · intro hplain
    have hreach : (script files [macArg, ipArg]).ops ≠ [] ↔ MacGrammar macArg ∧ IpGrammar ipArg := by
      rw [haccepted]
      constructor
      · intro ⟨⟨ms, colon, newlines, hm⟩, os, dot, ho⟩
        have hnone : ¬(colon = true ∨ 0 < newlines ∨ dot = true ∨
            ∃ o ∈ os, ∃ d, readBase 10 o = some d ∧ 2 ^ 63 ≤ d) :=
          fun hextra => hplain ⟨ms, colon, newlines, os, dot, hm, ho, hextra⟩
        have ⟨hcolon, hrest⟩ := not_or.mp hnone
        have ⟨hnewlines, hrest⟩ := not_or.mp hrest
        have ⟨hdot, hbig⟩ := not_or.mp hrest
        rw [Bool.eq_false_of_not_eq_true hcolon, Nat.eq_zero_of_not_pos hnewlines] at hm
        rw [Bool.eq_false_of_not_eq_true hdot] at ho
        refine ⟨hm.grammar, ho.grammar fun o hin => ?_⟩
        have ⟨_, _, d, hd, _⟩ := ho.2.1 o hin
        exact ⟨d, hd, Nat.lt_of_not_le fun hle => hbig ⟨o, hin, d, hd, hle⟩⟩
      · intro ⟨hm, ho⟩
        have ⟨ms, hms⟩ := hm.form
        have ⟨os, hos, _⟩ := ho.form
        exact ⟨⟨ms, false, 0, hms⟩, os, false, hos⟩
    refine ⟨hreach, fun hno => ?_⟩
    have hnil := not_not.mp (mt hreach.mp hno)
    rw [usage_of_ops_eq_nil files hnil]
    exact ⟨by decide, rfl⟩

theorem obeysGrammar_of_usage_example :
    ((∀ c ∈ "00:0a:35:15:23:56".toList, isGlob c = false) ∧
      ∀ c ∈ "192.168.0.111".toList, isGlob c = false) ∧
    (ObeysGrammar "00:0a:35:15:23:56".toList "192.168.0.111".toList
        (script (fun _ => []) ["00:0a:35:15:23:56".toList, "192.168.0.111".toList]) ↔
      ¬Tolerated "00:0a:35:15:23:56".toList "192.168.0.111".toList) :=
  have hmac := globFree_of_any (x := "00:0a:35:15:23:56".toList) rfl
  have hip := globFree_of_any (x := "192.168.0.111".toList) rfl
  ⟨⟨hmac, hip⟩, obeysGrammar_iff _ hmac hip⟩

/-- A dot at the end makes no fifth word. -/
theorem accepts_dot_behind_octets : ¬∀ (files : Text → List Text) (macArg ipArg : Text),
    (∀ c ∈ macArg, isGlob c = false) → (∀ c ∈ ipArg, isGlob c = false) →
      ObeysGrammar macArg ipArg (script files [macArg, ipArg]) := by
  intro h
  have ⟨hreach, _⟩ := h (fun _ => []) "00:0a:35:15:23:56".toList "192.168.0.111.".toList
    (globFree_of_any rfl) (globFree_of_any rfl)
  have ⟨_, gs, hlen, hall, harg⟩ := hreach.mp (by decide)
  have hne : gs ≠ [] := List.ne_nil_of_length_eq_add_one hlen
  have hsplit := List.splitOn_intercalate '.' (fun g hg => not_mem_of_digits (hall g hg).1.2) hne
  rw [← harg] at hsplit
  rw [← hsplit] at hlen
  exact absurd hlen (by decide)

end TraceFS.CfgEth
