import Mathlib.Data.Nat.Digits.Defs
import TraceFS.Scripts.CfgTrace

/-!
`trc_fs_cfg_eth.sh`: MAC and IP address of the receiver.

Both addresses are split at their separators, checked word by word and joined again
as numerals for `busybox devmem`. `test` reads an octet of the IP address as decimal,
`printf` reads it as a C constant.
-/
namespace TraceFS.CfgEth
open Numerals ShellText
open TraceFS.CfgTrace (Word Op)

/-- The accesses of the script and its exit status. -/
structure Outcome where
  ops : List Op
  status : Nat
  deriving DecidableEq

def usage : Outcome := ⟨[], 1⟩

def tsnControl : Word := 0xa080000c
def destMacLow : Word := 0xa0810000
def destMacHigh : Word := 0xa0810004
def destIp : Word := 0xa0810014

/-- `*[!0-9a-f]*` does not match. -/
def isLowerHex (c : Char) : Bool := c.isDigit || ('a' ≤ c && c ≤ 'f')

def checkMacOctet (octet : Text) : Bool := octet.length = 2 && octet.all isLowerHex

/-- `"0x$4$3$2$1"` and `"0x$6$5"` for an accepted MAC address. -/
def parseMac (files : Text → List Text) (macAddr : Text) : Option (Text × Text) :=
  match words files ':' macAddr with
  | [m1, m2, m3, m4, m5, m6] =>
      if [m1, m2, m3, m4, m5, m6].all checkMacOctet then
        some ('0' :: 'x' :: (m4 ++ m3 ++ m2 ++ m1), '0' :: 'x' :: (m6 ++ m5))
      else none
  | _ => none

/-- The operand of a comparison in `test`: decimal, an error beyond `intmax_t`. -/
def testOperand (x : Text) : Option Nat := (readBase 10 x).filter (· < 2 ^ 63)

/-- `[ x -lt n ]`; an error is not true. -/
def testLt (x : Text) (n : Nat) : Bool := (testOperand x).any (· < n)

/-- `[ x -gt n ]` -/
def testGt (x : Text) (n : Nat) : Bool := (testOperand x).any (n < ·)

/-- `printf '%02x'` -/
def printfHex (x : Text) : Text := padded 16 2 (strtoumax x)

/-- One round of the loop over the octets, which appends to `ip_hex`. -/
def addOctet (ipHex octet : Text) : Option Text :=
  if octet = [] || octet.any (fun c => !c.isDigit) then none
  else if testLt octet 0 || testGt octet 255 then none
  else some (ipHex ++ printfHex octet)

def parseIp (files : Text → List Text) (ipAddr : Text) : Option Text :=
  let octets := words files '.' ipAddr
  if octets.length ≠ 4 then none
  else (octets.foldlM addOctet []).map fun ipHex => '0' :: 'x' :: ipHex

/-- `busybox devmem ADDR 32 VALUE` writes nothing where the value does not fit in 64 bits. -/
def devmemWrite (addr : Word) (val : Text) : List Op :=
  match (constant val).filter (· < 2 ^ 64) with
  | none => []
  | some v => [.write addr (BitVec.ofNat 32 v)]

/-- What follows the checks. The exit status is that of the last command. -/
def configure (macReg0 macReg1 ipReg : Text) : Outcome where
  ops :=
    [.read tsnControl, .write tsnControl 0x1936, .write 0xa081001c 0x5a0, .write 0xa0810030 0x20] ++
      (devmemWrite destMacLow macReg0 ++ (devmemWrite destMacHigh macReg1 ++
        devmemWrite destIp ipReg))
  status := if devmemWrite destIp ipReg = [] then 1 else 0

/-- `$(printf '%s' "$1" | tr '[:upper:]' '[:lower:]')` -/
def macText (arg : Text) : Text := stripNewlines (lower arg)

def script (files : Text → List Text) : List Text → Outcome
  | [macArg, ipArg] =>
      match parseMac files (macText macArg) with
      | none => usage
      | some (macReg0, macReg1) =>
          match parseIp files ipArg with
          | none => usage
          | some ipReg => configure macReg0 macReg1 ipReg
  | _ => usage

/-- The values written to a register. -/
def written (ops : List Op) (addr : Word) : List Word :=
  ops.filterMap fun
    | .read _ => none
    | .write a v => if a = addr then some v else none

theorem parseMac_eq_some {files : Text → List Text} {x macReg0 macReg1 : Text} :
    parseMac files x = some (macReg0, macReg1) ↔
      ∃ m1 m2 m3 m4 m5 m6, words files ':' x = [m1, m2, m3, m4, m5, m6] ∧
        (∀ m ∈ [m1, m2, m3, m4, m5, m6], checkMacOctet m = true) ∧
        macReg0 = '0' :: 'x' :: (m4 ++ m3 ++ m2 ++ m1) ∧ macReg1 = '0' :: 'x' :: (m6 ++ m5) := by
  constructor
  · intro h
    unfold parseMac at h
    split at h
    case h_1 m1 m2 m3 m4 m5 m6 hwords =>
      have ⟨hall, hregs⟩ := Option.ite_none_right_eq_some.mp h
      cases hregs
      exact ⟨m1, m2, m3, m4, m5, m6, hwords, List.all_eq_true.mp hall, rfl, rfl⟩
    case h_2 => cases h
  · intro ⟨m1, m2, m3, m4, m5, m6, hwords, hall, hlow, hhigh⟩
    rw [parseMac, hwords, hlow, hhigh]
    exact if_pos (List.all_eq_true.mpr hall)

/-- The accepted octets of an IP address. -/
def Accepted (octet : Text) : Prop :=
  octet ≠ [] ∧ (∀ c ∈ octet, c.isDigit = true) ∧
    ∃ d, readBase 10 octet = some d ∧ (d ≤ 255 ∨ 2 ^ 63 ≤ d)

theorem digitVal_of_isDigit {c : Char} (h : c.isDigit = true) :
    ∃ d < 10, digitVal c = some d := by
  simp only [Char.isDigit, Bool.and_eq_true, decide_eq_true_eq] at h
  have hle : '0' ≤ c ∧ c ≤ '9' := h
  refine ⟨c.toNat - '0'.toNat, ?_, if_pos hle⟩
  have hnine : c.toNat ≤ '9'.toNat := h.2
  change c.toNat ≤ 57 at hnine
  change c.toNat - 48 < 10
  omega

theorem foldlM_of_digits {octet : Text} (h : ∀ c ∈ octet, c.isDigit = true) (acc : Nat) :
    ∃ d, octet.foldlM (readDigit 10) acc = some d := by
  induction octet generalizing acc with
  | nil => exact ⟨acc, rfl⟩
  | cons c octet ih =>
      have ⟨d, hlt, hd⟩ := digitVal_of_isDigit (h c List.mem_cons_self)
      have ⟨v, hv⟩ := ih (fun e he => h e (List.mem_cons_of_mem c he)) (10 * acc + d)
      refine ⟨v, ?_⟩
      rw [List.foldlM_cons, readDigit, hd, Option.bind_some, if_pos hlt]
      exact hv

theorem testGt_eq_false {octet : Text} {d n : Nat} (hd : readBase 10 octet = some d) :
    testGt octet n = false ↔ d ≤ n ∨ 2 ^ 63 ≤ d := by
  rw [testGt, testOperand, hd]
  by_cases hlt : d < 2 ^ 63
  · rw [Option.filter_some, if_pos (decide_eq_true hlt), Option.any_some, decide_eq_false_iff_not]
    omega
  · rw [Option.filter_some, if_neg (by simpa using hlt)]
    simp only [Option.any_none, true_iff]
    omega

theorem testLt_zero (octet : Text) : testLt octet 0 = false := by
  rw [testLt]
  cases testOperand octet with
  | none => rfl
  | some v => exact decide_eq_false (Nat.not_lt_zero v)

theorem addOctet_eq_some {octet ipHex next : Text} :
    addOctet ipHex octet = some next ↔ Accepted octet ∧ next = ipHex ++ printfHex octet := by
  rw [addOctet, testLt_zero, Bool.false_or]
  constructor
  · intro h
    have ⟨hshape, h⟩ := Option.ite_none_left_eq_some.mp h
    have ⟨hrange, h⟩ := Option.ite_none_left_eq_some.mp h
    simp only [Bool.or_eq_true, decide_eq_true_eq, not_or, Bool.not_eq_true, List.any_eq_false,
      Bool.not_eq_false'] at hshape
    have hdigits : ∀ c ∈ octet, c.isDigit = true := by simpa using hshape.2
    have ⟨d, hd⟩ := foldlM_of_digits hdigits 0
    exact ⟨⟨hshape.1, hdigits, d, hd, (testGt_eq_false hd).mp (by simpa using hrange)⟩,
      (Option.some.inj h).symm⟩
  · intro ⟨⟨hne, hdigits, d, hd, hrange⟩, hnext⟩
    have hshape : ¬(decide (octet = []) || octet.any fun c => !c.isDigit) = true := by
      simpa [hne] using hdigits
    rw [if_neg hshape, (testGt_eq_false hd).mpr hrange, hnext]
    rfl

theorem foldlM_addOctet {octets : List Text} {ipHex next : Text} :
    octets.foldlM addOctet ipHex = some next ↔
      (∀ octet ∈ octets, Accepted octet) ∧ next = ipHex ++ octets.flatMap printfHex := by
  induction octets generalizing ipHex with
  | nil => simp [eq_comm]
  | cons octet octets ih =>
      rw [List.foldlM_cons]
      change ((addOctet ipHex octet).bind fun x => octets.foldlM addOctet x) = some next ↔ _
      simp only [Option.bind_eq_some_iff, addOctet_eq_some, ih, List.forall_mem_cons,
        List.flatMap_cons]
      constructor
      · intro ⟨mid, ⟨hhead, hmid⟩, htail, hnext⟩
        exact ⟨⟨hhead, htail⟩, by rw [hnext, hmid, List.append_assoc]⟩
      · intro ⟨⟨hhead, htail⟩, hnext⟩
        exact ⟨_, ⟨hhead, rfl⟩, htail, by rw [hnext, List.append_assoc]⟩

theorem parseIp_eq_some {files : Text → List Text} {x ipReg : Text} :
    parseIp files x = some ipReg ↔
      (words files '.' x).length = 4 ∧ (∀ octet ∈ words files '.' x, Accepted octet) ∧
        ipReg = '0' :: 'x' :: (words files '.' x).flatMap printfHex := by
  rw [parseIp]
  constructor
  · intro h
    have ⟨hlen, h⟩ := Option.ite_none_left_eq_some.mp h
    have ⟨ipHex, hfold, hreg⟩ := Option.map_eq_some_iff.mp h
    have ⟨hall, hhex⟩ := foldlM_addOctet.mp hfold
    exact ⟨not_not.mp hlen, hall, by rw [← hreg, hhex, List.nil_append]⟩
  · intro ⟨hlen, hall, hreg⟩
    have hfold := foldlM_addOctet.mpr ⟨hall, (List.nil_append _).symm⟩
    rw [if_neg (not_not.mpr hlen), hfold, hreg]
    rfl

/-- Either both addresses are taken and the device is configured, or nothing is accessed. -/
theorem script_cases (files : Text → List Text) (macArg ipArg : Text) :
    (∃ macReg0 macReg1 ipReg, parseMac files (macText macArg) = some (macReg0, macReg1) ∧
      parseIp files ipArg = some ipReg ∧
      script files [macArg, ipArg] = configure macReg0 macReg1 ipReg) ∨
    ((parseMac files (macText macArg) = none ∨ parseIp files ipArg = none) ∧
      script files [macArg, ipArg] = usage) := by
  rw [script]
  cases hmac : parseMac files (macText macArg) with
  | none => exact .inr ⟨.inl rfl, rfl⟩
  | some regs =>
      cases hip : parseIp files ipArg with
      | none => exact .inr ⟨.inr rfl, rfl⟩
      | some ipReg => exact .inl ⟨regs.1, regs.2, ipReg, rfl, rfl, rfl⟩

theorem configure_ops_ne_nil (macReg0 macReg1 ipReg : Text) :
    (configure macReg0 macReg1 ipReg).ops ≠ [] := List.cons_ne_nil _ _

end TraceFS.CfgEth
