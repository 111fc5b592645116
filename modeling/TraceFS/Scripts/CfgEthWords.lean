import TraceFS.Scripts.CfgEth

/-!
The register words of `trc_fs_cfg_eth.sh`.

The bytes of the MAC address are joined as hexadecimal text, and two digits a byte
always mean that byte. An octet of the IP address passes `printf` on the way, and
comes out as another number where a leading 0 makes it octal.
-/
namespace TraceFS.CfgEth
open Numerals ShellText
open TraceFS.CfgTrace (Word Op)

/-- MAC bytes with the first one lowest, and the IP address in network order. -/
def AddressesWritten (files : Text → List Text) (macArg ipArg : Text) (ops : List Op) : Prop :=
  ∃ mac ip : List Nat,
    List.Forall₂ (fun m v => readBase 16 m = some v) (words files ':' (macText macArg)) mac ∧
    List.Forall₂ (fun o v => readBase 10 o = some v) (words files '.' ipArg) ip ∧
    (written ops destMacLow).map BitVec.toNat = [Nat.ofDigits 256 (mac.take 4)] ∧
    (written ops destMacHigh).map BitVec.toNat = [Nat.ofDigits 256 (mac.drop 4)] ∧
    (written ops destIp).map BitVec.toNat = [Nat.ofDigits 256 ip.reverse]

/-- An octet that is no octal numeral of another value. -/
def ReadAlike (octet : Text) : Prop :=
  ∃ d, readBase 10 octet = some d ∧ d ≤ 255 ∧ (octet.head? = some '0' → d < 8)

/-! What a `devmem` command writes. -/

theorem constant_of_hex {hex : Text} (hne : hex ≠ []) : constant ('0' :: 'x' :: hex) = readBase 16 hex :=
  if_neg hne

theorem written_append (ops ops' : List Op) (addr : Word) :
    written (ops ++ ops') addr = written ops addr ++ written ops' addr :=
  List.filterMap_append

theorem written_devmemWrite_of_ne {addr addr' : Word} (hne : addr ≠ addr') (val : Text) :
    written (devmemWrite addr val) addr' = [] := by
  unfold devmemWrite
  split
  · rfl
  · simp [written, hne]

theorem written_devmemWrite {val : Text} {v : Nat} (hval : constant val = some v) (hv : v < 2 ^ 32)
    (addr : Word) : (written (devmemWrite addr val) addr).map BitVec.toNat = [v] := by
  have hfits : (constant val).filter (· < 2 ^ 64) = some v := by
    rw [hval, Option.filter_some, if_pos]
    exact decide_eq_true (by omega)
  rw [devmemWrite, hfits]
  have hmod : v % 2 ^ 32 = v := Nat.mod_eq_of_lt hv
  simpa [written] using hmod

theorem toNat_written_lt {ops : List Op} {addr : Word} {v : Nat}
    (h : (written ops addr).map BitVec.toNat = [v]) : v < 2 ^ 32 := by
  have hmem : v ∈ (written ops addr).map BitVec.toNat := by
    rw [h]
    exact List.mem_singleton_self v
  have ⟨w, _, hw⟩ := List.mem_map.mp hmem
  rw [← hw]
  exact w.isLt

section Configure
variable (macReg0 macReg1 ipReg : Text)

/-- The fixed words go to other registers. -/
theorem written_configure {addr : Word} (haddr : addr ∈ [destMacLow, destMacHigh, destIp]) :
    written (configure macReg0 macReg1 ipReg).ops addr =
      written (devmemWrite destMacLow macReg0) addr ++
        (written (devmemWrite destMacHigh macReg1) addr ++
          written (devmemWrite destIp ipReg) addr) := by
  have hfixed : ∀ a ∈ [destMacLow, destMacHigh, destIp],
      written [.read tsnControl, .write tsnControl 0x1936, .write 0xa081001c 0x5a0,
        .write 0xa0810030 0x20] a = [] := by
    simp [written, tsnControl, destMacLow, destMacHigh, destIp]
  rw [configure, written_append, hfixed addr haddr, List.nil_append, written_append, written_append]

theorem written_destMacLow : written (configure macReg0 macReg1 ipReg).ops destMacLow =
    written (devmemWrite destMacLow macReg0) destMacLow := by
  have hhigh : destMacHigh ≠ destMacLow := by decide
  have hip : destIp ≠ destMacLow := by decide
  rw [written_configure _ _ _ (by simp), written_devmemWrite_of_ne hhigh,
    written_devmemWrite_of_ne hip, List.append_nil, List.append_nil]

theorem written_destMacHigh : written (configure macReg0 macReg1 ipReg).ops destMacHigh =
    written (devmemWrite destMacHigh macReg1) destMacHigh := by
  have hlow : destMacLow ≠ destMacHigh := by decide
  have hip : destIp ≠ destMacHigh := by decide
  rw [written_configure _ _ _ (by simp), written_devmemWrite_of_ne hlow,
    written_devmemWrite_of_ne hip, List.append_nil, List.nil_append]

theorem written_destIp : written (configure macReg0 macReg1 ipReg).ops destIp =
    written (devmemWrite destIp ipReg) destIp := by
  have hlow : destMacLow ≠ destIp := by decide
  have hhigh : destMacHigh ≠ destIp := by decide
  rw [written_configure _ _ _ (by simp), written_devmemWrite_of_ne hlow,
    written_devmemWrite_of_ne hhigh, List.nil_append, List.nil_append]

end Configure

/-! The MAC address. -/

theorem digitVal_of_isLowerHex {c : Char} (h : isLowerHex c = true) : ∃ d < 16, digitVal c = some d := by
  cases hdigit : c.isDigit with
  | true =>
      have ⟨d, hlt, hd⟩ := digitVal_of_isDigit hdigit
      exact ⟨d, by omega, hd⟩
  | false =>
      rw [isLowerHex, hdigit, Bool.false_or, Bool.and_eq_true, decide_eq_true_eq,
        decide_eq_true_eq] at h
      have hge : 97 ≤ c.toNat := h.1
      have hle : c.toNat ≤ 102 := h.2
      have hnot : ¬('0' ≤ c ∧ c ≤ '9') := by
        intro ⟨_, hnine⟩
        have hnine : c.toNat ≤ 57 := hnine
        omega
      refine ⟨c.toNat - 97 + 10, by omega, ?_⟩
      rw [digitVal, if_neg hnot, if_pos h]
      rfl

theorem readBase_of_checkMacOctet {m : Text} (h : checkMacOctet m = true) :
    m.length = 2 ∧ ∃ v < 256, readBase 16 m = some v := by
  rw [checkMacOctet, Bool.and_eq_true, decide_eq_true_eq] at h
  have ⟨hlen, hhex⟩ := h
  refine ⟨hlen, ?_⟩
  have ⟨c, e, hm⟩ := List.length_eq_two.mp hlen
  rw [hm] at hhex ⊢
  rw [List.all_eq_true] at hhex
  have ⟨d, hd, hc⟩ := digitVal_of_isLowerHex (hhex c (by simp))
  have ⟨d', hd', he⟩ := digitVal_of_isLowerHex (hhex e (by simp))
  refine ⟨16 * d + d', by omega, ?_⟩
  simp [readBase, readDigit, hc, he, hd, hd']

/-- Numerals of two digits make the number whose digits to base 256 they are. -/
theorem written_bytes (addr : Word) (ms : List Text) (vs : List Nat)
    (hread : List.Forall₂ (fun m v => readBase 16 m = some v) ms vs)
    (hwidth : ∀ m ∈ ms, m.length = 2) (hbyte : ∀ v ∈ vs, v < 256) (hne : ms ≠ [])
    (hlen : ms.length ≤ 4) :
    (written (devmemWrite addr ('0' :: 'x' :: ms.flatten)) addr).map BitVec.toNat =
      [Nat.ofDigits 256 vs.reverse] := by
  have hflat : ms.flatten ≠ [] := by
    intro hnil
    cases ms with
    | nil => exact hne rfl
    | cons m ms =>
        have hm := hwidth m List.mem_cons_self
        rw [(List.append_eq_nil_iff.mp hnil).1] at hm
        cases hm
  have hval : constant ('0' :: 'x' :: ms.flatten) = some (Nat.ofDigits 256 vs.reverse) := by
    rw [constant_of_hex hflat]
    exact readBase_flatten hread hwidth
  have hlt : Nat.ofDigits 256 vs.reverse < 256 ^ vs.reverse.length :=
    Nat.ofDigits_lt_base_pow_length (by decide) fun v hv => hbyte v (List.mem_reverse.mp hv)
  have hpow : 256 ^ vs.reverse.length ≤ 256 ^ 4 := by
    rw [List.length_reverse, ← hread.length_eq]
    exact Nat.pow_le_pow_right (by decide) hlen
  exact written_devmemWrite hval (by omega) addr

theorem macWritten {files : Text → List Text} {macArg macReg0 macReg1 : Text} (ipReg : Text)
    (h : parseMac files (macText macArg) = some (macReg0, macReg1)) :
    ∃ mac : List Nat,
      List.Forall₂ (fun m v => readBase 16 m = some v) (words files ':' (macText macArg)) mac ∧
      (written (configure macReg0 macReg1 ipReg).ops destMacLow).map BitVec.toNat =
        [Nat.ofDigits 256 (mac.take 4)] ∧
      (written (configure macReg0 macReg1 ipReg).ops destMacHigh).map BitVec.toNat =
        [Nat.ofDigits 256 (mac.drop 4)] := by
  have ⟨m1, m2, m3, m4, m5, m6, hwords, hall, hlow, hhigh⟩ := parseMac_eq_some.mp h
  simp only [List.forall_mem_cons] at hall
  have ⟨h1, h2, h3, h4, h5, h6, _⟩ := hall
  have ⟨w1, v1, hv1, hr1⟩ := readBase_of_checkMacOctet h1
  have ⟨w2, v2, hv2, hr2⟩ := readBase_of_checkMacOctet h2
  have ⟨w3, v3, hv3, hr3⟩ := readBase_of_checkMacOctet h3
  have ⟨w4, v4, hv4, hr4⟩ := readBase_of_checkMacOctet h4
  have ⟨w5, v5, hv5, hr5⟩ := readBase_of_checkMacOctet h5
  have ⟨w6, v6, hv6, hr6⟩ := readBase_of_checkMacOctet h6
  refine ⟨[v1, v2, v3, v4, v5, v6], ?_, ?_, ?_⟩
  · rw [hwords]
    simp [hr1, hr2, hr3, hr4, hr5, hr6]
  · have hbytes := written_bytes destMacLow [m4, m3, m2, m1] [v4, v3, v2, v1]
      (by simp [hr1, hr2, hr3, hr4]) (by simp [w1, w2, w3, w4]) (by simp [hv1, hv2, hv3, hv4])
      (by simp) (by simp)
    rw [written_destMacLow, hlow]
    simpa using hbytes
  · have hbytes := written_bytes destMacHigh [m6, m5] [v6, v5]
      (by simp [hr5, hr6]) (by simp [w5, w6]) (by simp [hv5, hv6]) (by simp) (by simp)
    rw [written_destMacHigh, hhigh]
    simpa using hbytes

/-! The IP address. -/

theorem readBase_printfHex {octet : Text} (h : strtoumax octet < 256) :
    (printfHex octet).length = 2 ∧ readBase 16 (printfHex octet) = some (strtoumax octet) := by
  rw [printfHex, padded_eq_fixedDigits (by decide) (by decide) h]
  exact ⟨length_fixedDigits 16 2 _, readBase_fixedDigits (by decide) (by decide) h⟩

theorem written_octets {octets : List Text} (hlen : octets.length = 4)
    (hbyte : ∀ octet ∈ octets, strtoumax octet < 256) :
    (written (devmemWrite destIp ('0' :: 'x' :: octets.flatMap printfHex)) destIp).map BitVec.toNat =
      [Nat.ofDigits 256 (octets.map strtoumax).reverse] := by
  have hread : List.Forall₂ (fun m v => readBase 16 m = some v) (octets.map printfHex)
      (octets.map strtoumax) := by
    rw [List.forall₂_map_left_iff, List.forall₂_map_right_iff, List.forall₂_same]
    intro octet hmem
    exact (readBase_printfHex (hbyte octet hmem)).2
  have hwidth : ∀ m ∈ octets.map printfHex, m.length = 2 := by
    intro m hm
    have ⟨octet, hmem, hprint⟩ := List.mem_map.mp hm
    rw [← hprint]
    exact (readBase_printfHex (hbyte octet hmem)).1
  have hvals : ∀ v ∈ octets.map strtoumax, v < 256 := by
    intro v hv
    have ⟨octet, hmem, hval⟩ := List.mem_map.mp hv
    rw [← hval]
    exact hbyte octet hmem
  have hne : octets.map printfHex ≠ [] := by
    intro hnil
    rw [List.map_eq_nil_iff.mp hnil] at hlen
    cases hlen
  exact written_bytes destIp _ _ hread hwidth hvals hne (by rw [List.length_map, hlen])

def decimal (octet : Text) : Nat := (readBase 10 octet).getD 0

theorem readBase_decimal {octet : Text} (h : Accepted octet) :
    readBase 10 octet = some (decimal octet) ∧ (decimal octet ≤ 255 ∨ 2 ^ 63 ≤ decimal octet) := by
  have ⟨_, _, d, hd, hrange⟩ := h
  rw [decimal, hd]
  exact ⟨rfl, hrange⟩

theorem readAlike_iff {octet : Text} (h : Accepted octet) :
    ReadAlike octet ↔ decimal octet ≤ 255 ∧ strtoumax octet = decimal octet := by
  have hread := (readBase_decimal h).1
  constructor
  · intro ⟨d, hd, hle, hlead⟩
    cases hread.symm.trans hd
    exact ⟨hle, (strtoumax_of_readBase hd (by omega)).2.mpr hlead⟩
  · intro ⟨hle, heq⟩
    exact ⟨decimal octet, hread, hle, (strtoumax_of_readBase hread (by omega)).2.mp heq⟩

theorem ipWritten_iff {octets : List Text} (hlen : octets.length = 4)
    (haccepted : ∀ octet ∈ octets, Accepted octet) :
    (written (devmemWrite destIp ('0' :: 'x' :: octets.flatMap printfHex)) destIp).map BitVec.toNat =
      [Nat.ofDigits 256 (octets.map decimal).reverse] ↔ ∀ octet ∈ octets, ReadAlike octet := by
  constructor
  · intro h
    have hlt := toNat_written_lt h
    -- An octet that `test` could not read would not fit in the register.
    have hsmall : ∀ octet ∈ octets, decimal octet ≤ 255 := by
      intro octet hmem
      have hd : decimal octet ∈ (octets.map decimal).reverse :=
        List.mem_reverse.mpr (List.mem_map_of_mem hmem)
      have hle := le_ofDigits (b := 256) (by decide) hd
      have hrange := (readBase_decimal (haccepted octet hmem)).2
      omega
    have hbyte : ∀ octet ∈ octets, strtoumax octet < 256 := by
      intro octet hmem
      have hle := hsmall octet hmem
      have hoctal := (strtoumax_of_readBase (readBase_decimal (haccepted octet hmem)).1 (by omega)).1
      omega
    rw [written_octets hlen hbyte] at h
    have hdigits : (octets.map strtoumax).reverse = (octets.map decimal).reverse := by
      refine Nat.ofDigits_inj_of_len_eq (b := 256) (by decide) (by simp) ?_ ?_
        (List.singleton_inj.mp h)
      · simpa using hbyte
      · intro d hd
        have ⟨octet, hmem, hval⟩ := List.mem_map.mp (List.mem_reverse.mp hd)
        have hle := hsmall octet hmem
        omega
    have hsame := List.map_inj_left.mp (List.reverse_injective hdigits)
    intro octet hmem
    exact (readAlike_iff (haccepted octet hmem)).mpr ⟨hsmall octet hmem, hsame octet hmem⟩
  · intro h
    have halike : ∀ octet ∈ octets, decimal octet ≤ 255 ∧ strtoumax octet = decimal octet :=
      fun octet hmem => (readAlike_iff (haccepted octet hmem)).mp (h octet hmem)
    have hbyte : ∀ octet ∈ octets, strtoumax octet < 256 := by
      intro octet hmem
      have ⟨hle, heq⟩ := halike octet hmem
      omega
    rw [written_octets hlen hbyte, List.map_congr_left fun octet hmem => (halike octet hmem).2]

/-- The register words are those of the addresses exactly where no octet is taken for
an octal numeral. -/
theorem addressesWritten_iff (files : Text → List Text) (macArg ipArg : Text)
    (h : (script files [macArg, ipArg]).ops ≠ []) :
    AddressesWritten files macArg ipArg (script files [macArg, ipArg]).ops ↔
      ∀ octet ∈ words files '.' ipArg, ReadAlike octet := by
  cases script_cases files macArg ipArg with
  | inr hrefused =>
      rw [hrefused.2] at h
      exact absurd rfl h
  | inl htaken =>
      have ⟨macReg0, macReg1, ipReg, hmac, hip, hrun⟩ := htaken
      have ⟨hlen, haccepted, hreg⟩ := parseIp_eq_some.mp hip
      have hiff := ipWritten_iff hlen haccepted
      rw [← hreg, ← written_destIp macReg0 macReg1] at hiff
      have hread : List.Forall₂ (fun o v => readBase 10 o = some v) (words files '.' ipArg)
          ((words files '.' ipArg).map decimal) := by
        rw [List.forall₂_map_right_iff, List.forall₂_same]
        exact fun octet hmem => (readBase_decimal (haccepted octet hmem)).1
      rw [hrun, ← hiff]
      constructor
      · intro ⟨_, ip, _, hip, _, _, hdest⟩
        have hsame : ip = (words files '.' ipArg).map decimal :=
          List.right_unique_forall₂'
            (fun _ _ _ hu hv => Option.some.inj (hu.symm.trans hv)) hip hread
        rw [← hsame]
        exact hdest
      · intro hdest
        have ⟨mac, hmacRead, hlow, hhigh⟩ := macWritten ipReg hmac
        exact ⟨mac, _, hmacRead, hread, hlow, hhigh, hdest⟩

theorem addressesWritten_of_usage_example :
    (script (fun _ => []) ["00:0a:35:15:23:56".toList, "192.168.0.111".toList]).ops ≠ [] ∧
      (AddressesWritten (fun _ => []) "00:0a:35:15:23:56".toList "192.168.0.111".toList
          (script (fun _ => []) ["00:0a:35:15:23:56".toList, "192.168.0.111".toList]).ops ↔
        ∀ octet ∈ words (fun _ => []) '.' "192.168.0.111".toList, ReadAlike octet) :=
  ⟨by decide, addressesWritten_iff _ _ _ (by decide)⟩

/-- The third octet is 10 for `test` and 8 for `printf`. -/
theorem writes_octal_octet : ¬∀ (files : Text → List Text) (macArg ipArg : Text),
    (script files [macArg, ipArg]).ops ≠ [] →
      AddressesWritten files macArg ipArg (script files [macArg, ipArg]).ops := by
  intro h
  have ⟨_, ip, _, hip, _, _, hdest⟩ :=
    h (fun _ => []) "00:0a:35:15:23:56".toList "192.168.010.111".toList (by decide)
  have hread : List.Forall₂ (fun o v => readBase 10 o = some v)
      (words (fun _ => []) '.' "192.168.010.111".toList) [192, 168, 10, 111] :=
    .cons rfl (.cons rfl (.cons rfl (.cons rfl .nil)))
  have hval : ip = [192, 168, 10, 111] :=
    List.right_unique_forall₂' (fun _ _ _ hu hv => Option.some.inj (hu.symm.trans hv)) hip hread
  rw [hval] at hdest
  exact absurd hdest (by decide)

end TraceFS.CfgEth
