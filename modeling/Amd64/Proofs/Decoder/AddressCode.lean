import Amd64.Proofs.Decoder.Addresses
import Amd64.Proofs.Decoder.PrefixRuns
import Mathlib.Data.Nat.Bitwise

namespace Amd64

/-!
# Addresses as bytes encode them

* `AddressCode`           — the bytes and bits that an address is encoded in, and the fields in them;
* `AddressCode.ofBytes`   — where they are in the bytes of an instruction;
* `Address.EncodedBy`     — an address is the one that is encoded;
* `Prefixes.on_modRm`     — this address is read from an operand byte;
* `encodedBy_of_decode`   — so it is the one of every memory operand;
* `segment_of_decode`     — its segment is the one that the prefixes select.
-/

/-- The two's-complement number of all bits of a list of bytes. -/
def LittleEndian.signed (bs : List UInt8) : Int :=
  (value bs : Int).bmod (256 ^ bs.length)

/-- What the bytes of an instruction say about the address of its memory operand. -/
structure AddressCode where
  /-- Addresses have 32 bits. -/
  narrow : Bool
  segment : Option SegmentRegister
  /-- Extends the index field. -/
  x : Bool
  /-- Extends the base field. -/
  b : Bool
  /-- The operand byte. -/
  modRm : UInt8
  /-- The bytes behind the operand byte. -/
  following : List UInt8

namespace AddressCode

section
variable (c : AddressCode)

/-- The field that tells a register from the sizes of displacements. -/
def mode : Nat := c.modRm.toNat / 64

/-- The operand field. -/
def rm : Nat := c.modRm.toNat % 8

/-- Whether scale, index and base are in one more byte, whatever extends the operand field. -/
def hasSib : Bool := c.rm = 4

/-- The byte of scale, index and base. -/
def sib : Nat := (c.following.headD 0).toNat

/-- The field that selects the base. -/
def baseField : Nat := if c.hasSib then c.sib % 8 else c.rm

/-- Whether there is no base register, whatever extends the base field. -/
def noBase : Bool := c.mode = 0 ∧ c.baseField = 5

/-- The number of the base register. -/
def baseCode : Fin 16 := ⟨(c.baseField + 8 * c.b.toNat) % 16, Nat.mod_lt _ (by decide)⟩

/-- The number of the index register, where 4 means that there is none. -/
def indexCode : Fin 16 := ⟨(c.sib / 8 % 8 + 8 * c.x.toNat) % 16, Nat.mod_lt _ (by decide)⟩

/-- The bytes from the displacement on. -/
def rest : List UInt8 := if c.hasSib then c.following.drop 1 else c.following

/-- Number of bytes of the displacement. -/
def displacementSize : Nat :=
  if c.noBase ∨ c.mode = 2 then 4 else if c.mode = 1 then 1 else 0

/-- The displacement with its sign. -/
def displacement : Int := LittleEndian.signed (c.rest.take c.displacementSize)

end

/-- The code that an operand byte and the bytes behind it are if they are read with the prefixes `p`. -/
def ofPrefixes (p : Prefixes) (byte : UInt8) (following : List UInt8) : AddressCode :=
  ⟨p.narrow, p.segment, p.extension.x, p.extension.b, byte, following⟩

/-- The code in the bytes of an instruction. -/
def ofBytes (bs : List UInt8) : AddressCode :=
  let run := bs.takeWhile isPrefixByte
  let code := bs.dropWhile isPrefixByte
  let operand := code.drop (opcodeSize (code.headD 0))
  { narrow := 0x67 ∈ run
    segment := segmentOverride bs
    x := extensionBit ((rexOf run).any (· &&& 2 ≠ 0)) 0x40 code
    b := extensionBit ((rexOf run).any (· &&& 1 ≠ 0)) 0x20 code
    modRm := operand.headD 0
    following := operand.tail }

end AddressCode

/-- The address is the one that is encoded, with a displacement of its own. -/
structure Address.PlacedBy (a : Address) (c : AddressCode) : Prop where
  /-- Without a base register the address starts from zero or from the instruction. -/
  bare : c.noBase = true → a.base = if c.hasSib then .zero else .next
  /-- The base register is the one of the encoded number. -/
  base : c.noBase = false → ∃ g : Gpr, g.index = c.baseCode ∧ a.base = .register g
  /-- The index register is the one of the encoded number, which is not 4. -/
  index : a.index.map Gpr.index = if c.hasSib ∧ c.indexCode.val ≠ 4 then some c.indexCode else none
  scale : c.hasSib = true → a.scale.factor = 2 ^ (c.sib / 64)
  segment : a.segment = c.segment
  narrow : a.narrow = c.narrow

/-- The registers of an address do not depend on its displacement. -/
theorem Address.PlacedBy.withDisplacement {a : Address} {c : AddressCode} (h : a.PlacedBy c) (d : Int32) :
    Address.PlacedBy { a with displacement := d } c :=
  ⟨h.bare, h.base, h.index, h.scale, h.segment, h.narrow⟩

/-- Only a displacement that the mode asks for is missing in the address, and `rest` begins with it. -/
def Address.PlacedBefore (a : Address) (c : AddressCode) (rest : List UInt8) : Prop :=
  a.PlacedBy c ∧
    if c.noBase then a.displacement.toInt = LittleEndian.signed (c.rest.take 4)
    else a.displacement = 0 ∧ rest = c.rest

/-- The address is the one that is encoded. -/
structure Address.EncodedBy (a : Address) (c : AddressCode) : Prop extends a.PlacedBy c where
  mode_ne : c.mode ≠ 3
  displacement : a.displacement.toInt = c.displacement

open Reader

/-! ### Displacements -/

/-- One byte is read as a signed number. -/
theorem Reader.on_int8 (bs : List UInt8) :
    int8.On bs fun d _ => d.toInt = LittleEndian.signed (bs.take 1) := by
  refine on_byte_bind fun b rest hbs => on_pure ?_
  have hsigned : LittleEndian.signed [b] = (b.toNat : Int).bmod 256 := by
    rw [LittleEndian.signed, LittleEndian.value_cons, LittleEndian.value_nil, Nat.mul_zero, Nat.add_zero,
      List.length_singleton, Nat.pow_one]
  rw [hbs, List.take_succ_cons, List.take_zero, hsigned, Int8.toInt_toInt32]
  exact BitVec.toInt_eq_toNat_bmod b.toBitVec

/-- Four bytes are read as a signed number. -/
theorem Reader.on_int32 (bs : List UInt8) :
    int32.On bs fun d _ => d.toInt = LittleEndian.signed (bs.take 4) := by
  refine (on_number 4 bs).seq fun n rest ⟨used, hbs, hlen, hn⟩ => on_pure ?_
  have hmodulus : 256 ^ 4 = 2 ^ 32 := by decide
  rw [hbs, List.take_left' hlen, LittleEndian.signed, ← hn, hlen, hmodulus]
  show (UInt32.ofNat n).toBitVec.toInt = _
  rw [UInt32.toBitVec_ofNat']
  exact BitVec.toInt_ofNat' n

/-! ### The operand byte -/

/-- A field of three bits, by division. -/
theorem val_bitField (byte : UInt8) (shift : Nat) :
    (bitField byte shift).val = byte.toNat / 2 ^ shift % 8 :=
  congrArg (· % 8) (Nat.shiftRight_eq_div_pow byte.toNat shift)

/-- A field with its extension as a number. -/
theorem val_extendField (high : Bool) (low : Fin 8) :
    (extendField high low).val = (low.val + 8 * high.toNat) % 16 := by
  revert low
  cases high <;> decide

/-- The factor is a power of two, whose exponent is in the two highest bits. -/
theorem factor_scaleField (byte : UInt8) : (scaleField byte).factor = 2 ^ (byte.toNat / 64) := by
  have hshift : byte.toNat / 64 = byte.toNat >>> 6 := (Nat.shiftRight_eq_div_pow _ 6).symm
  have hlt : byte.toNat / 64 < 4 := by
    have hbyte := byte.toNat_lt
    omega
  rw [hshift] at hlt ⊢
  rw [scaleField]
  generalize byte.toNat >>> 6 = k at hlt
  revert k
  decide

namespace Prefixes

variable (p : Prefixes) (byte : UInt8) (following : List UInt8)

variable {p byte following} in
/-- A displacement takes the place of a base, or there is a base register. -/
theorem on_baseOrDisplacement (bare : Address) {based : Address} {c : AddressCode} {rest : List UInt8}
    (hrest : c.rest = rest) {none : Prop} [Decidable none] (hnone : none ↔ c.noBase = true)
    (hbare : c.noBase = true → ∀ d, Address.PlacedBy { bare with displacement := d } c)
    (hbased : c.noBase = false → based.PlacedBy c) (hzero : based.displacement = 0) :
    (if none then do return { bare with displacement := ← int32 } else return based : Reader Address).On
      rest fun a rest => a.PlacedBefore c rest := by
  refine On.ite (fun h => ?_) fun h => ?_
  · refine (on_int32 rest).seq fun d _ hd => on_pure ⟨hbare (hnone.mp h) d, ?_⟩
    rw [if_pos (hnone.mp h), hrest, hd]
  · have hsome := Bool.eq_false_iff.mpr fun hnoBase => h (hnone.mpr hnoBase)
    refine on_pure ⟨hbased hsome, ?_⟩
    rw [if_neg (Bool.eq_false_iff.mp hsome)]
    exact ⟨hzero, hrest.symm⟩

/-- The byte of scale, index and base. -/
theorem on_scaledAddress :
    let c := AddressCode.ofPrefixes p byte following
    c.hasSib = true → (p.scaledAddress c.mode).On following fun a rest => a.PlacedBefore c rest := by
  intro c hsib
  refine on_byte_bind ?_
  rintro sib rest rfl
  have hbaseField : c.baseField = (bitField sib 0).val := if_pos hsib
  have hbase : c.baseCode = extendField p.extension.b (bitField sib 0) :=
    Fin.ext (by rw [val_extendField, ← hbaseField]; rfl)
  have hindex : (if (extendField p.extension.x (bitField sib 3)).val = 4 then none
        else some (Gpr.ofIndex (extendField p.extension.x (bitField sib 3)))).map Gpr.index =
      if c.hasSib ∧ c.indexCode.val ≠ 4 then some c.indexCode else none := by
    have hcode : c.indexCode = extendField p.extension.x (bitField sib 3) :=
      Fin.ext (by rw [val_extendField, val_bitField]; rfl)
    rw [← hcode]
    by_cases h : c.indexCode.val = 4 <;> simp [h, hsib]
  have hnone : (bitField sib 0).val = 5 ∧ c.mode = 0 ↔ c.noBase = true := by
    rw [AddressCode.noBase, decide_eq_true_eq, hbaseField, and_comm]
  -- the byte behind the ModRM byte has been read, so only the displacement is left
  refine on_baseOrDisplacement _ (if_pos hsib) hnone (fun h d => ?_) (fun h => ?_) rfl
  · exact ⟨fun _ => (if_pos hsib).symm, fun hsome => absurd h (Bool.eq_false_iff.mp hsome), hindex,
      fun _ => factor_scaleField sib, rfl, rfl⟩
  · refine ⟨fun hbare => absurd hbare (Bool.eq_false_iff.mp h), fun _ => ⟨_, ?_, rfl⟩, hindex,
      fun _ => factor_scaleField sib, rfl, rfl⟩
    rw [hbase, Gpr.index_ofIndex]

/-- Without the displacement that the mode asks for. -/
theorem on_baseAddress :
    let c := AddressCode.ofPrefixes p byte following
    (p.baseAddress c.mode (bitField byte 0)).On following fun a rest => a.PlacedBefore c rest := by
  intro c
  refine On.ite (fun hsib => ?_) fun hsib => ?_
  · exact p.on_scaledAddress byte following (decide_eq_true hsib)
  have hnoSib : ¬ c.hasSib = true := fun h => hsib (of_decide_eq_true h)
  have hbaseField : c.baseField = (bitField byte 0).val := if_neg hnoSib
  have hbase : c.baseCode = extendField p.extension.b (bitField byte 0) :=
    Fin.ext (by rw [val_extendField, ← hbaseField]; rfl)
  have hindex : none = if c.hasSib ∧ c.indexCode.val ≠ 4 then some c.indexCode else none :=
    (if_neg fun h => hnoSib h.1).symm
  have hnone : (bitField byte 0).val = 5 ∧ c.mode = 0 ↔ c.noBase = true := by
    rw [AddressCode.noBase, decide_eq_true_eq, hbaseField, and_comm]
  refine on_baseOrDisplacement { p.bareAddress with base := .next } (if_neg hnoSib) hnone
    (fun h d => ?_) (fun h => ?_) rfl
  · exact ⟨fun _ => (if_neg hnoSib).symm, fun hsome => absurd h (Bool.eq_false_iff.mp hsome), hindex,
      fun h => absurd h hnoSib, rfl, rfl⟩
  · refine ⟨fun hbare => absurd hbare (Bool.eq_false_iff.mp h), fun _ => ⟨_, ?_, rfl⟩, hindex,
      fun h => absurd h hnoSib, rfl, rfl⟩
    rw [hbase, Gpr.index_ofIndex]

/-- The displacement that the mode asks for is the only one if there is any. -/
theorem on_address :
    let c := AddressCode.ofPrefixes p byte following
    c.mode ≠ 3 → (p.address c.mode (bitField byte 0)).On following fun a _ => a.EncodedBy c := by
  intro c hmode
  refine (p.on_baseAddress byte following).seq fun a rest ⟨hplaced, hdisplacement⟩ => ?_
  -- a displacement without a base is there in mode 0 only, so it is never read twice
  have hzero : c.mode ≠ 0 → a.displacement = 0 ∧ rest = c.rest := fun hne => by
    rwa [if_neg fun h => hne (of_decide_eq_true h).1] at hdisplacement
  have hsize : c.displacement = LittleEndian.signed (c.rest.take c.displacementSize) := rfl
  split
  · next h1 =>
    obtain ⟨ha, rfl⟩ := hzero (by omega)
    have hnoBase : ¬ (c.noBase = true ∨ c.mode = 2) := by
      simp [AddressCode.noBase, h1]
    rw [AddressCode.displacementSize, if_neg hnoBase, if_pos h1] at hsize
    refine (on_int8 c.rest).seq fun d _ hd => on_pure ⟨hplaced.withDisplacement _, hmode, ?_⟩
    rw [hsize, ← hd, ha, Int32.zero_add]
  · next h2 =>
    obtain ⟨ha, rfl⟩ := hzero (by omega)
    rw [AddressCode.displacementSize, if_pos (Or.inr h2)] at hsize
    refine (on_int32 c.rest).seq fun d _ hd => on_pure ⟨hplaced.withDisplacement _, hmode, ?_⟩
    rw [hsize, ← hd, ha, Int32.zero_add]
  · next h1 h2 =>
    -- without a base the displacement has been read already
    refine on_pure ⟨hplaced, hmode, ?_⟩
    by_cases hnoBase : c.noBase = true
    · rw [if_pos hnoBase] at hdisplacement
      rw [hdisplacement, hsize, AddressCode.displacementSize, if_pos (Or.inl hnoBase)]
    · rw [if_neg hnoBase] at hdisplacement
      rw [AddressCode.displacementSize, if_neg (not_or.mpr ⟨hnoBase, h2⟩), if_neg h1,
        List.take_zero] at hsize
      rw [hdisplacement.1, hsize]
      rfl

/-- **Operand bytes.** An operand byte in memory is read as the address that it encodes. -/
theorem on_modRm : p.modRm.On (byte :: following) fun m _ =>
    m.rm.EachAddress (·.EncodedBy (AddressCode.ofPrefixes p byte following)) := by
  refine on_byte_bind fun b rest h => ?_
  obtain ⟨rfl, rfl⟩ := List.cons.inj h
  have hmode : byte.toNat >>> 6 = (AddressCode.ofPrefixes p byte following).mode :=
    Nat.shiftRight_eq_div_pow byte.toNat 6
  simp only [hmode]
  refine On.ite (fun _ => on_pure trivial) fun hne => ?_
  exact (p.on_address byte following hne).map fun _ ha => ha

end Prefixes

/-! ### Decoding -/

/-- The reader of prefixes takes the longest run of prefix bytes and the byte behind it. -/
theorem Prefixes.on_read (bs : List UInt8) : Prefixes.read.On bs fun v rest =>
    v.1 = .ofRun (bs.takeWhile isPrefixByte) ∧ bs.dropWhile isPrefixByte = v.2 :: rest := by
  intro v rest hparse
  have hrun : ∀ b ∈ bs.takeWhile isPrefixByte, isPrefixByte b = true :=
    List.all_eq_true.mp List.all_takeWhile
  rw [← List.takeWhile_append_dropWhile (p := isPrefixByte) (l := bs)] at hparse
  cases hcode : bs.dropWhile isPrefixByte with
  | nil =>
    rw [hcode, List.append_nil, parse_read_of_forall hrun] at hparse
    exact nomatch hparse
  | cons op code =>
    have hop : isPrefixByte op = false := by
      have hhead := List.head?_dropWhile_not isPrefixByte bs
      rwa [hcode] at hhead
    rw [hcode, parse_read_run hrun hop] at hparse
    obtain ⟨hv, rfl⟩ := Prod.mk.inj (Option.some.inj hparse)
    obtain rfl := Except.ok.inj hv
    exact ⟨rfl, rfl⟩

/-- Prefixes and opcode extend the fields as the bytes say. -/
theorem AddressCode.ofPrefixes_eq_ofBytes {p q : Prefixes} {op byte : UInt8}
    {bs rest following : List UInt8} (hp : p = .ofRun (bs.takeWhile isPrefixByte))
    (hcode : bs.dropWhile isPrefixByte = op :: rest)
    (hq : p.Extended (op :: rest) q) (hoperand : (op :: rest).drop (opcodeSize op) = byte :: following) :
    ofPrefixes q byte following = ofBytes bs := by
  have hrex : ∀ run : List UInt8,
      (Prefixes.ofRun run).extension.x = (rexOf run).any (· &&& 2 ≠ 0) ∧
        (Prefixes.ofRun run).extension.b = (rexOf run).any (· &&& 1 ≠ 0) := by
    intro run
    rw [Prefixes.ofRun]
    cases rexOf run <;> exact ⟨rfl, rfl⟩
  obtain ⟨hx, hb⟩ := hrex (bs.takeWhile isPrefixByte)
  rw [← hp] at hx hb
  rw [ofPrefixes, hq.narrow, hq.segment, hq.index, hq.base, hx, hb, hp, ofBytes, hcode]
  simp only [List.headD_cons, hoperand, List.tail_cons]
  rfl

/-- **Addresses.** The address of every memory operand of a decoded instruction is encoded in its bytes. -/
theorem encodedBy_of_decode {rip : UInt64} {bs : List UInt8} {i : Instruction}
    (h : decode rip bs = .ok i) :
    i.operation.EachAddress (·.EncodedBy (AddressCode.ofBytes bs)) := by
  have hon : operation.On bs fun o _ => o.EachAddress (·.EncodedBy (AddressCode.ofBytes bs)) := by
    refine (Prefixes.on_read bs).seq fun v rest hv => ?_
    obtain ⟨p, op⟩ := v
    obtain ⟨hp, hcode⟩ := hv
    have hbody : (body p op).On rest fun o _ => o.EachAddress (·.EncodedBy (AddressCode.ofBytes bs)) := by
      refine eachAddress_body p op fun q hq => ?_
      cases hoperand : (op :: rest).drop (opcodeSize op) with
      | nil => exact fun _ _ hparse => nomatch (show none = some _ from hparse)
      | cons byte following =>
        rw [← AddressCode.ofPrefixes_eq_ofBytes hp hcode hq hoperand]
        exact q.on_modRm byte following
    exact hbody.bind fun o ho => Ensures.ite (fun _ => ensures_invalid) fun _ => ensures_pure ho
  -- the reader looks at the window only, but makes the same of all bytes
  rcases missing_or_reads bs with hmissing | ⟨used, s, result, rfl, hlen, hreads, -⟩
  · rw [decode_of_missing rip hmissing] at h
    exact nomatch h
  · rw [decode_of_reads rip hreads hlen] at h
    cases result with
    | ok o =>
      obtain rfl := Except.ok.inj h
      exact (hon o s (hreads.complete s)).relocate _
    | error refusal => exact nomatch h

/-- **Segments.** The memory operands of a decoded instruction are in the segment that its prefixes select. -/
theorem segment_of_decode {rip : UInt64} {bs : List UInt8} {i : Instruction}
    (h : decode rip bs = .ok i) : i.operation.EachAddress (·.segment = segmentOverride bs) :=
  (encodedBy_of_decode h).mono fun _ ha => ha.segment

end Amd64
