import TraceFS.Lib.Records
import TraceFS.Tools.Udp2nexus

/-!
The logger `udplog.py`, which appends every received datagram to the log that
`udp2nexus` reads.

Both run on little-endian hosts. `none` stands for a raised exception. A socket
hands a datagram over with the sender's address in dotted form, cut to the size of
the receive buffer.
-/
namespace TraceFS.Udplog
open Udp2nexus (Byte Entry Packet bytes32 le32 dgramMax)

/-- `datetime.datetime`, as far as it is logged, with the ranges it guarantees. -/
structure Timestamp where
  day : Nat
  hour : Nat
  minute : Nat
  second : Nat
  microsecond : Nat
  day_le : day ≤ 31
  hour_lt : hour < 24
  minute_lt : minute < 60
  second_lt : second < 60
  microsecond_lt : microsecond < 1000000

/-- A field of a `struct` format: an unsigned byte or a 32-bit unsigned integer. -/
inductive Format where
  | B
  | I
  deriving DecidableEq, Repr

def Format.size : Format → Nat
  | .B => 1
  | .I => 4

def leBytes (size v : Nat) : List Byte :=
  (List.range size).map fun i => BitVec.ofNat 8 (v / 256 ^ i)

/-- `struct.pack`; native formats pad each field to its alignment, standard ones
do not. A value outside the range of its field is a `struct.error`. -/
def structPack (native : Bool) : List (Format × Nat) → List Byte → Option (List Byte)
  | [], out => some out
  | (f, v) :: fields, out =>
      let gap := if native then (f.size - out.length % f.size) % f.size else 0
      if v < 256 ^ f.size then
        structPack native fields (out ++ List.replicate gap 0 ++ leBytes f.size v)
      else none

def digitsValue (digits : List Char) : Nat :=
  digits.foldl (fun n c => 10 * n + (c.toNat - '0'.toNat)) 0

/-- An octet of `ipaddress.IPv4Address`: one to three digits, no leading zero. -/
def parseOctet (octet : List Char) : Option Byte :=
  if octet ≠ [] ∧ octet.all Char.isDigit ∧ octet.length ≤ 3 ∧
      (octet = ['0'] ∨ octet.head? ≠ some '0') ∧ digitsValue octet ≤ 255 then
    some (BitVec.ofNat 8 (digitsValue octet))
  else none

/-- `ipaddress.IPv4Address(ipaddr).packed` -/
def ipv4Packed (ipaddr : List Char) : Option (List Byte) :=
  let octets := ipaddr.splitOn '.'
  if octets.length = 4 then octets.mapM parseOctet else none

def logData (tstamp : Timestamp) (data : List Byte) (addr : List Char × BitVec 16) :
    Option (List Byte) := do
  let timestampbin ← structPack true
    [(.B, tstamp.day), (.B, tstamp.hour), (.B, tstamp.minute), (.B, tstamp.second),
      (.I, tstamp.microsecond)] []
  let packed ← ipv4Packed addr.1
  let datalenbin ← structPack false [(.I, data.length)] []
  some (timestampbin ++ packed ++ datalenbin ++ data)

structure Ipv4 where
  b0 : Byte
  b1 : Byte
  b2 : Byte
  b3 : Byte
  deriving DecidableEq, Repr

def Ipv4.bytes (ip : Ipv4) : List Byte := [ip.b0, ip.b1, ip.b2, ip.b3]

def Ipv4.dotted (ip : Ipv4) : List Char :=
  ['.'].intercalate (ip.bytes.map fun b => Nat.toDigits 10 b.toNat)

/-- A datagram on its way to the logger, and the time at which it is logged. -/
structure Datagram where
  tstamp : Timestamp
  sender : Ipv4
  port : BitVec 16
  data : List Byte

/-- `sock.recvfrom(bufsize)` -/
def Datagram.recvfrom (d : Datagram) (bufsize : Nat) : List Byte × (List Char × BitVec 16) :=
  (d.data.take bufsize, (d.sender.dotted, d.port))

/-- The receive loop over the datagrams that arrive; `file` is the log so far. -/
def receiveLoop : List Datagram → List Byte → Option (List Byte)
  | [], file => some file
  | d :: ds, file =>
      let (data, addr) := d.recvfrom 2048
      match logData d.tstamp data addr with
      | none => none
      | some entry => receiveLoop ds (file ++ entry)

/-! Writing: a logged datagram is an entry of the log. -/

def Timestamp.clock (t : Timestamp) : List Byte :=
  [t.day, t.hour, t.minute, t.second].map (BitVec.ofNat 8)

def Datagram.entry (d : Datagram) : Entry :=
  { tstamp0 := le32 d.tstamp.clock, tstamp1 := BitVec.ofNat 32 d.tstamp.microsecond
    ip := le32 d.sender.bytes, data := d.data }

theorem extractLsb'_le32 (b0 b1 b2 b3 : Byte) {j : Nat} (hj : j < 4) :
    (le32 [b0, b1, b2, b3]).extractLsb' (8 * j) 8 = [b0, b1, b2, b3].getD j 0 := by
  apply BitVec.eq_of_getLsbD_eq
  intro i hi
  have past (b : Byte) {n : Nat} (h : 8 ≤ n) : b.getLsbD n = false := BitVec.getLsbD_of_ge b n h
  simp only [le32, BitVec.getLsbD_extractLsb', BitVec.getLsbD_or, BitVec.getLsbD_shiftLeft,
    BitVec.getLsbD_setWidth]
  match j, hj with
  | 0, _ | 1, _ | 2, _ | 3, _ => grind

theorem bytes32_le32 (b0 b1 b2 b3 : Byte) :
    bytes32 (le32 [b0, b1, b2, b3]) = [b0, b1, b2, b3] := by
  have byte {j : Nat} (hj : j < 4) := extractLsb'_le32 b0 b1 b2 b3 hj
  rw [bytes32, byte (j := 0) (by omega)]
  exact congrArg (b0 :: ·) (List.cons_eq_cons.mpr ⟨byte (by omega : 1 < 4),
    List.cons_eq_cons.mpr ⟨byte (by omega : 2 < 4), List.cons_eq_cons.mpr
      ⟨byte (by omega : 3 < 4), rfl⟩⟩⟩)

theorem leBytes_four {v : Nat} : leBytes 4 v = bytes32 (BitVec.ofNat 32 v) := by
  have byte (k : Nat) (hk : k + 8 ≤ 32) :
      (BitVec.ofNat 32 v).extractLsb' k 8 = BitVec.ofNat 8 (v / 2 ^ k) := by
    have hsplit : 2 ^ 32 = 2 ^ k * (2 ^ 8 * 2 ^ (24 - k)) := by
      rw [← Nat.pow_add, ← Nat.pow_add]
      congr 1
      omega
    apply BitVec.eq_of_toNat_eq
    rw [BitVec.extractLsb'_toNat, BitVec.toNat_ofNat, BitVec.toNat_ofNat,
      Nat.shiftRight_eq_div_pow, hsplit, Nat.mod_mul_right_div_self, Nat.mod_mul_right_mod]
  simp [leBytes, bytes32, byte, List.range_succ]

theorem parseOctet_toDigits (b : Byte) : parseOctet (Nat.toDigits 10 b.toNat) = some b := by
  have all : ∀ n < 256, parseOctet (Nat.toDigits 10 n) = some (BitVec.ofNat 8 n) := by
    decide +kernel
  have h := all b.toNat b.isLt
  rw [h, BitVec.ofNat_toNat, BitVec.setWidth_eq]

theorem dot_notMem_toDigits (b : Byte) : '.' ∉ Nat.toDigits 10 b.toNat := by
  have all : ∀ n < 256, '.' ∉ Nat.toDigits 10 n := by decide +kernel
  exact all b.toNat b.isLt

theorem ipv4Packed_dotted (ip : Ipv4) : ipv4Packed ip.dotted = some ip.bytes := by
  have hsplit : ip.dotted.splitOn '.' = ip.bytes.map fun b => Nat.toDigits 10 b.toNat := by
    apply List.splitOn_intercalate
    · intro octet hmem
      have ⟨b, _, hb⟩ := List.mem_map.mp hmem
      rw [← hb]
      exact dot_notMem_toDigits b
    · simp [Ipv4.bytes]
  simp [ipv4Packed, hsplit, Ipv4.bytes, parseOctet_toDigits]

theorem logData_eq (d : Datagram) (h : d.data.length ≤ dgramMax) :
    logData d.tstamp d.data (d.sender.dotted, d.port) = some d.entry.encode := by
  have hday := d.tstamp.day_le
  have hhour := d.tstamp.hour_lt
  have hminute := d.tstamp.minute_lt
  have hsecond := d.tstamp.second_lt
  have hmicro := d.tstamp.microsecond_lt
  have hlen : d.data.length < 4294967296 := by
    simp only [dgramMax] at h
    omega
  -- four bytes stand before the microseconds, which are therefore aligned
  have hstamp : structPack true [(.B, d.tstamp.day), (.B, d.tstamp.hour), (.B, d.tstamp.minute),
      (.B, d.tstamp.second), (.I, d.tstamp.microsecond)] [] =
      some (d.tstamp.clock ++ bytes32 (BitVec.ofNat 32 d.tstamp.microsecond)) := by
    have one (v : Nat) : leBytes 1 v = [BitVec.ofNat 8 v] := by simp [leBytes]
    simp [structPack, Format.size, one, leBytes_four, Timestamp.clock,
      show d.tstamp.day < 256 by omega, show d.tstamp.hour < 256 by omega,
      show d.tstamp.minute < 256 by omega, show d.tstamp.second < 256 by omega,
      show d.tstamp.microsecond < 4294967296 by omega]
  have hdatalen : structPack false [(.I, d.data.length)] [] =
      some (bytes32 (BitVec.ofNat 32 d.data.length)) := by
    simp [structPack, Format.size, leBytes_four, hlen]
  simp [logData, hstamp, hdatalen, ipv4Packed_dotted, Entry.encode, Datagram.entry,
    Timestamp.clock, Ipv4.bytes, bytes32_le32]

theorem receiveLoop_eq {ds : List Datagram} (h : ∀ d ∈ ds, d.data.length ≤ dgramMax)
    (file : List Byte) :
    receiveLoop ds file = some (file ++ (ds.map Datagram.entry).flatMap Entry.encode) := by
  induction ds generalizing file with
  | nil => simp [receiveLoop]
  | cons d ds ih =>
      have hd := h d List.mem_cons_self
      have hds : ∀ d ∈ ds, d.data.length ≤ dgramMax :=
        fun d' hd' => h d' (List.mem_cons_of_mem d hd')
      have hdata : d.data.take 2048 = d.data := List.take_of_length_le hd
      simp only [receiveLoop, Datagram.recvfrom, hdata, logData_eq d hd, ih hds, List.map_cons,
        List.flatMap_cons, List.append_assoc]

/-! Reading: the entry at the front of a log, and what the converter shows of it. -/

/-- The entry at the front of a log, if one is complete there. -/
def readEntry (bs : List Byte) : Option (Entry × List Byte) :=
  let len := (le32 ((bs.drop 12).take 4)).toNat
  if 16 ≤ bs.length ∧ len ≤ dgramMax ∧ 16 + len ≤ bs.length then
    some ({ tstamp0 := le32 (bs.take 4), tstamp1 := le32 ((bs.drop 4).take 4)
            ip := le32 ((bs.drop 8).take 4), data := (bs.drop 16).take len }, bs.drop (16 + len))
  else none

theorem bytes32_le32_of_length {bs : List Byte} (h : bs.length = 4) : bytes32 (le32 bs) = bs := by
  match bs, h with
  | [b0, b1, b2, b3], _ => exact bytes32_le32 b0 b1 b2 b3

theorem encode_of_readEntry {bs rest : List Byte} {e : Entry} (h : readEntry bs = some (e, rest)) :
    e.data.length ≤ dgramMax ∧ bs = e.encode ++ rest := by
  simp only [readEntry] at h
  split at h
  case isFalse => cases h
  case isTrue fits =>
    have ⟨hhead, hmax, hdata⟩ := fits
    have ⟨he, hrest⟩ := Prod.mk.inj (Option.some.inj h)
    have word (k : Nat) (hk : k + 4 ≤ 16) :
        bytes32 (le32 ((bs.drop k).take 4)) = (bs.drop k).take 4 :=
      bytes32_le32_of_length (by rw [List.length_take, List.length_drop]; omega)
    have hlen : e.data.length = (le32 ((bs.drop 12).take 4)).toNat := by
      rw [← he, List.length_take, List.length_drop]
      omega
    refine ⟨by omega, ?_⟩
    have hword : BitVec.ofNat 32 e.data.length = le32 ((bs.drop 12).take 4) := by
      rw [hlen, BitVec.ofNat_toNat, BitVec.setWidth_eq]
    have piece (k n : Nat) : (bs.drop k).take n ++ bs.drop (k + n) = bs.drop k := by
      rw [← List.drop_drop, List.take_append_drop]
    rw [Entry.encode, hword, ← he, ← hrest, word 12 (by omega), word 4 (by omega),
      word 8 (by omega), bytes32_le32_of_length (by rw [List.length_take]; omega)]
    simp only [List.append_assoc]
    rw [piece 16, piece 12 4, piece 8 4, piece 4 4, List.take_append_drop]

theorem readEntry_encode {e : Entry} (h : e.data.length ≤ dgramMax) (rest : List Byte) :
    readEntry (e.encode ++ rest) = some (e, rest) := by
  have hlen := Udp2nexus.toNat_dataLength h
  have word (w : BitVec 32) : le32 [w.extractLsb' 0 8, w.extractLsb' 8 8, w.extractLsb' 16 8,
      w.extractLsb' 24 8] = w := Udp2nexus.le32_bytes32 w
  simp only [readEntry, Entry.encode, bytes32, List.cons_append, List.nil_append,
    List.drop_succ_cons, List.drop_zero, List.take_succ_cons, List.take_zero, word, hlen,
    Nat.add_comm 16 e.data.length, List.take_left, List.drop_left]
  rw [if_pos]
  simp only [List.length_cons, List.length_append]
  omega

def recordFormat : Records.Format Byte Entry where
  encode := Entry.encode
  Valid e := e.data.length ≤ dgramMax
  next := readEntry
  encode_ne_nil e := by simp [Entry.encode, bytes32]
  next_eq_some_iff {bs e rest} := by
    constructor
    · exact encode_of_readEntry
    · intro ⟨hvalid, hbs⟩
      rw [hbs]
      exact readEntry_encode hvalid rest

section Reader
open Udp2nexus
variable (fopen : Nat → Bool) (g : Globals)

/-- Where no entry is complete, `next_entry` stops and changes nothing but the
buffer. -/
theorem nextEntry_of_readEntry_none {bs : List Byte} (h : readEntry bs = none) :
    (nextEntry fopen g bs).1 ≤ 0 ∧
      ∃ buffer, (nextEntry fopen g bs).2.1 = { g with buffer := buffer } := by
  have fits : ¬ (16 ≤ bs.length ∧ (le32 ((bs.drop 12).take 4)).toNat ≤ dgramMax ∧
      16 + (le32 ((bs.drop 12).take 4)).toNat ≤ bs.length) := by
    intro hfits
    simp only [readEntry, if_pos hfits] at h
    cases h
  simp only [nextEntry, fread, Nat.mul_one, List.drop_drop, List.length_take, List.length_drop,
    Nat.reduceAdd, Nat.one_mul]
  split
  · exact ⟨Int.le_refl _, g.buffer, rfl⟩
  · split
    · exact ⟨by omega, g.buffer, rfl⟩
    · split
      · exact ⟨by omega, g.buffer, rfl⟩
      · split
        · exact ⟨by omega, _, rfl⟩
        · omega

/-- The converter's loop visits what can be read from the log, and ends. -/
theorem entryLoop_of_reads {bs rest : List Byte} {es : List Entry}
    (h : recordFormat.Reads bs es rest) {fuel : Nat} (hfuel : bs.length < fuel) :
    ∃ buffer, entryLoop fopen fuel g bs =
      some { es.foldl (processEntry fopen) g with buffer := buffer } := by
  induction es generalizing bs g fuel with
  | nil =>
      obtain ⟨hbs, _, hstop⟩ := h
      obtain ⟨fuel, rfl⟩ := Nat.exists_eq_succ_of_ne_zero (by omega : fuel ≠ 0)
      have hbs : bs = rest := hbs
      obtain ⟨hret, buffer, hg⟩ := nextEntry_of_readEntry_none fopen g hstop
      refine ⟨buffer, ?_⟩
      simp only [hbs, entryLoop, hg]
      exact if_neg (Int.not_lt.mpr hret)
  | cons e es ih =>
      obtain ⟨hbs, hes, hstop⟩ := h
      obtain ⟨fuel, rfl⟩ := Nat.exists_eq_succ_of_ne_zero (by omega : fuel ≠ 0)
      have hbs : bs = e.encode ++ (recordFormat.stream es ++ rest) := by
        rw [hbs, Records.Format.stream_cons, List.append_assoc]
        rfl
      have hsize : 0 < e.encode.length := List.length_pos_iff.mpr (recordFormat.encode_ne_nil e)
      have hfuel : (recordFormat.stream es ++ rest).length < fuel := by
        rw [hbs, List.length_append] at hfuel
        omega
      have hrest : recordFormat.Reads (recordFormat.stream es ++ rest) es rest :=
        ⟨rfl, fun e he => hes e (List.mem_cons_of_mem _ he), hstop⟩
      obtain ⟨buffer, hloop⟩ := ih (processEntry fopen g e) hrest hfuel
      refine ⟨buffer, ?_⟩
      rw [hbs, entryLoop, nextEntry_complete fopen g (hes e List.mem_cons_self)]
      exact hloop

theorem parseFile_of_reads (filename : List Char) {bs rest : List Byte} {es : List Entry}
    (h : recordFormat.Reads bs es rest) :
    ∃ buffer, parseFile fopen filename (some bs) =
      some (0, { es.foldl (processEntry fopen) (initGlobals filename) with
        buffer := buffer, stream := none }) := by
  have ⟨buffer, hloop⟩ :=
    entryLoop_of_reads fopen (initGlobals filename) h (Nat.lt_succ_self bs.length)
  refine ⟨buffer, ?_⟩
  simp only [parseFile, hloop, Option.map_some]

/-- The header words and the data kept of a packet. -/
def entryOf (p : Packet) : Entry :=
  { tstamp0 := p.tstamp0, tstamp1 := p.tstamp1, ip := p.ip, data := p.data }

theorem processEntry_entries {e : Entry} (h : e.data.length ≤ dgramMax) :
    ∃ p, (processEntry fopen g e).packets = g.packets ++ [p] ∧ entryOf p = e ∧
      p.dgramlen.toNat = e.data.length := by
  have hlen := Udp2nexus.toNat_dataLength h
  have hdata (rest : List Byte) : (e.data ++ rest).take e.data.length = e.data :=
    List.take_left' rfl
  simp only [processEntry, dumpDatagram, hlen]
  split
  · exact ⟨_, rfl, by simp only [entryOf, newBinFile, hdata], hlen⟩
  · exact ⟨_, rfl, by simp only [entryOf, hdata], hlen⟩

theorem foldl_processEntry_entries {es : List Entry} (h : ∀ e ∈ es, e.data.length ≤ dgramMax) :
    ∃ ps, (es.foldl (processEntry fopen) g).packets = g.packets ++ ps ∧ ps.map entryOf = es ∧
      ∀ p ∈ ps, p.dgramlen.toNat = p.data.length := by
  induction es generalizing g with
  | nil => exact ⟨[], (List.append_nil _).symm, rfl, fun p hp => absurd hp List.not_mem_nil⟩
  | cons e es ih =>
      have ⟨p, hp, he, hlen⟩ := processEntry_entries fopen g (h e List.mem_cons_self)
      have ⟨ps, hps, hes, hlens⟩ :=
        ih (processEntry fopen g e) (fun e' he' => h e' (List.mem_cons_of_mem e he'))
      refine ⟨p :: ps, ?_, ?_, ?_⟩
      · rw [List.foldl_cons, hps, hp, List.append_assoc]
        rfl
      · rw [List.map_cons, he, hes]
      · intro q hq
        cases hq with
        | head => rw [hlen, ← he]; rfl
        | tail _ hmem => exact hlens q hmem

end Reader

/-- What is shown of a datagram: the sender's bytes, the clock, the length. -/
structure Shown where
  ip : List Byte
  day : Nat
  hour : Nat
  minute : Nat
  second : Nat
  microsecond : Nat
  dgramlen : Nat
  data : List Byte
  deriving DecidableEq, Repr

/-- The converter reads the header words byte by byte through `u8ptr`. -/
def shownPacket (p : Packet) : Shown :=
  let u8ptr := bytes32 p.tstamp0
  { ip := bytes32 p.ip
    day := (u8ptr.getD 0 0).toNat, hour := (u8ptr.getD 1 0).toNat
    minute := (u8ptr.getD 2 0).toNat, second := (u8ptr.getD 3 0).toNat
    microsecond := p.tstamp1.toNat, dgramlen := p.dgramlen.toNat, data := p.data }

def Datagram.shown (d : Datagram) : Shown :=
  { ip := d.sender.bytes
    day := d.tstamp.day, hour := d.tstamp.hour, minute := d.tstamp.minute
    second := d.tstamp.second, microsecond := d.tstamp.microsecond
    dgramlen := d.data.length, data := d.data }

theorem shownPacket_eq {p : Packet} {d : Datagram} (he : entryOf p = d.entry)
    (hlen : p.dgramlen.toNat = p.data.length) : shownPacket p = d.shown := by
  have hclock : p.tstamp0 = le32 d.tstamp.clock := congrArg Entry.tstamp0 he
  have hmicro : p.tstamp1 = BitVec.ofNat 32 d.tstamp.microsecond := congrArg Entry.tstamp1 he
  have hip : p.ip = le32 d.sender.bytes := congrArg Entry.ip he
  have hdata : p.data = d.data := congrArg Entry.data he
  have hday := d.tstamp.day_le
  have hhour := d.tstamp.hour_lt
  have hminute := d.tstamp.minute_lt
  have hsecond := d.tstamp.second_lt
  have hmicrosecond := d.tstamp.microsecond_lt
  simp [shownPacket, Datagram.shown, hclock, hmicro, hip, hlen, hdata, Ipv4.bytes,
    Timestamp.clock, bytes32_le32]
  omega

theorem map_shownPacket {ps : List Packet} {ds : List Datagram}
    (he : ps.map entryOf = ds.map Datagram.entry)
    (hlen : ∀ p ∈ ps, p.dgramlen.toNat = p.data.length) :
    ps.map shownPacket = ds.map Datagram.shown := by
  induction ps generalizing ds with
  | nil =>
      have hds : ds = [] := List.map_eq_nil_iff.mp he.symm
      rw [hds]
      rfl
  | cons p ps ih =>
      cases ds with
      | nil => cases he
      | cons d ds =>
          have ⟨hhead, htail⟩ := List.cons_eq_cons.mp he
          rw [List.map_cons, List.map_cons, shownPacket_eq hhead (hlen p List.mem_cons_self),
            ih htail (fun q hq => hlen q (List.mem_cons_of_mem p hq))]

/-- A log cut after `k` bytes is read back up to the last entry that ends before
the cut, each with what was logged; and from any bytes the converter reads the
longest sequence of complete entries. -/
theorem log_read_back (fopen : Nat → Bool) (filename : List Char) :
    (∀ ds : List Datagram, (∀ d ∈ ds, d.data.length ≤ 2048) → ∃ log,
      receiveLoop ds [] = some log ∧ ∀ k, ∃ g m,
        Udp2nexus.parseFile fopen filename (some (log.take k)) = some (0, g) ∧
        g.packets.map shownPacket = (ds.take m).map Datagram.shown ∧
        ∀ i, i < ds.length → (i < m ↔
          ∃ part, receiveLoop (ds.take (i + 1)) [] = some part ∧ part.length ≤ k)) ∧
    ∀ bytes : List Byte, ∃ g es rest,
      Udp2nexus.parseFile fopen filename (some bytes) = some (0, g) ∧
      g.packets.map entryOf = es ∧
      bytes = es.flatMap Entry.encode ++ rest ∧ (∀ e ∈ es, e.data.length ≤ 2048) ∧
      ∀ es' rest', bytes = es'.flatMap Entry.encode ++ rest' →
        (∀ e ∈ es', e.data.length ≤ 2048) → es' <+: es := by
  refine ⟨?_, ?_⟩
  · intro ds h
    have hes : ∀ e ∈ ds.map Datagram.entry, e.data.length ≤ dgramMax := by
      intro e he
      have ⟨d, hd, hde⟩ := List.mem_map.mp he
      rw [← hde]
      exact h d hd
    refine ⟨_, receiveLoop_eq h [], ?_⟩
    intro k
    have ⟨m, rest, hreads, hm⟩ := recordFormat.reads_take hes k
    have ⟨buffer, hparse⟩ := parseFile_of_reads fopen filename hreads
    have hkept : ∀ e ∈ (ds.map Datagram.entry).take m, e.data.length ≤ dgramMax :=
      fun e he => hes e (List.mem_of_mem_take he)
    have ⟨ps, hps, hentries, hlens⟩ :=
      foldl_processEntry_entries fopen (Udp2nexus.initGlobals filename) hkept
    refine ⟨_, m, hparse, ?_, ?_⟩
    · rw [hps]
      exact map_shownPacket (hentries.trans List.map_take.symm) hlens
    · intro i hi
      have hpart : ∀ d ∈ ds.take (i + 1), d.data.length ≤ dgramMax :=
        fun d hd => h d (List.mem_of_mem_take hd)
      rw [hm i (by simpa using hi), receiveLoop_eq hpart, ← List.map_take]
      simp [Records.Format.stream, recordFormat]
  · intro bytes
    have hreads := recordFormat.reads_entries bytes
    have ⟨buffer, hparse⟩ := parseFile_of_reads fopen filename hreads
    have ⟨ps, hps, hentries, _⟩ :=
      foldl_processEntry_entries fopen (Udp2nexus.initGlobals filename) hreads.2.1
    refine ⟨_, _, _, hparse, ?_, hreads.1, hreads.2.1, ?_⟩
    · rw [hps]
      exact hentries
    · intro es' rest' hbytes hvalid
      exact hreads.prefix_of hvalid hbytes

end TraceFS.Udplog
