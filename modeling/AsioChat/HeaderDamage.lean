import AsioChat.HeaderCheck
import AsioChat.Lib.CrcCode

/-!
# Damage to a Header

`HeaderCheck` says that a header altered in one of its fields is not accepted. Here the damage may
be anywhere in the twelve bytes, in `crc_` and in the bytes that are summed at once. Whether it
is noticed depends only on which of the 96 bits are flipped, not on the header. It is, if the
flipped bits are among 32 consecutive ones, or if they are not more than three.

## Main results

* `freshCrc_eq_crc_iff`: a header passes if and only if its twelve bytes leave in the remainder
  what every header that passes leaves.
* `header_damage_detected`: the damage that is noticed.
-/

namespace AsioChat

namespace PacketHeader

/-- A header passes if its checksum and the bytes before it leave what the final complement leaves
alone. -/
theorem freshCrc_eq_crc_iff {bs : List UInt8} (h : bs.length = 12) :
    (ofBytes bs).freshCrc = (ofBytes bs).crc ↔
      Crc.fold Crc32.poly Crc32.initial.rem bs = (Crc.shift Crc32.poly)^[32] 0xFFFFFFFF#32 := by
  have hlen : (bs.drop 8).length = 4 := by rw [List.length_drop, h]
  have hfold : Crc.fold Crc32.poly Crc32.initial.rem (bs.take 8 ++ bs.drop 8) =
        (Crc.shift Crc32.poly)^[8 * (bs.drop 8).length] 0xFFFFFFFF#32 ↔
      Crc.fold Crc32.poly Crc32.initial.rem (bs.take 8) ^^^
        BitVec.ofNat 32 (LittleEndian.value (bs.drop 8)) = 0xFFFFFFFF#32 :=
    Crc.fold_append_eq_iff Crc32.msb_poly (by omega)
  rw [List.take_append_drop, hlen] at hfold
  rw [hfold, freshCrc_ofBytes h, ofBytes, List.take_of_length_le hlen.le]
  -- the complement is taken of the one side or of the other
  constructor
  · intro hcrc
    have hbits : Crc.fold Crc32.poly Crc32.initial.rem (bs.take 8) ^^^ 0xFFFFFFFF#32 =
        BitVec.ofNat 32 (LittleEndian.value (bs.drop 8)) := congrArg UInt32.toBitVec hcrc
    rw [← hbits, ← BitVec.xor_assoc, BitVec.xor_self, BitVec.zero_xor]
  · intro hbits
    refine UInt32.toBitVec_inj.mp ?_
    show Crc.fold Crc32.poly Crc32.initial.rem (bs.take 8) ^^^ 0xFFFFFFFF#32 =
      BitVec.ofNat 32 (LittleEndian.value (bs.drop 8))
    rw [← hbits, ← BitVec.xor_assoc, BitVec.xor_self, BitVec.zero_xor]

end PacketHeader

/-- No one or two of the powers of the polynomial add up to one, as far as a header is long. -/
theorem powersNat_poly : ∀ x ∈ Crc.powersNat Crc32.poly.toNat 95,
    x ≠ 1 ∧ x ^^^ 1 ∉ Crc.powersNat Crc32.poly.toNat 95 := by
  decide +kernel

/-- **The damage that is noticed.** Whether a header that passed passes with damage depends on the
flipped bits alone. If they are among 32 consecutive ones of the 96, or not more than three, the
header is accepted by neither side. -/
theorem header_damage_detected {bs bs' : List UInt8} (hbs : bs.length = 12)
    (hbs' : bs'.length = 12)
    (hcrc : (PacketHeader.ofBytes bs).freshCrc = (PacketHeader.ofBytes bs).crc) :
    ((PacketHeader.ofBytes bs').freshCrc = (PacketHeader.ofBytes bs').crc ↔
        Crc.feed Crc32.poly 0#32 (Crc.damage bs bs') = 0#32) ∧
      (bs ≠ bs' → Crc.Burst 32 (Crc.damage bs bs') ∨ (Crc.damage bs bs').count true ≤ 3 →
        ∀ side : Side, side.checkHeader (.ofBytes bs') = false) := by
  have hlen : bs.length = bs'.length := hbs.trans hbs'.symm
  have hpasses : (PacketHeader.ofBytes bs').freshCrc = (PacketHeader.ofBytes bs').crc ↔
      Crc.feed Crc32.poly 0#32 (Crc.damage bs bs') = 0#32 := by
    rw [PacketHeader.freshCrc_eq_crc_iff hbs', ← (PacketHeader.freshCrc_eq_crc_iff hbs).mp hcrc]
    exact Crc.fold_eq_iff (by decide) hlen
  refine ⟨hpasses, fun hne hdamage side => Side.checkHeader_eq_false fun hcrc' => ?_⟩
  have htrue := Crc.true_mem_damage hlen hne
  have hzero := hpasses.mp hcrc'
  rcases hdamage with hburst | hcount
  · exact hburst.feed_ne_zero Crc32.msb_poly htrue hzero
  · have hbits : (Crc.damage bs bs').length ≤ 95 + 1 := by
      rw [Crc.length_damage hlen, hbs]
    exact Crc.feed_ne_zero_of_count_le Crc32.msb_poly
      (Crc.foldr_ne_one (by decide) powersNat_poly) hbits htrue hcount hzero

/-- Three flipped bits in a chat request's header, in each of its fields one. -/
theorem header_damage_detected_threeBits :
    Side.server.checkHeader (.ofBytes
      ((((builtBytes (fun _ => 170) 6 4).set 0 7).set 5 1).set 11
        ((builtBytes (fun _ => 170) 6 4).getD 11 0 ^^^ 128))) = false :=
  (@header_damage_detected (builtBytes (fun _ => 170) 6 4) _ (by decide +kernel)
    (by decide +kernel) (by decide +kernel)).2 (by decide +kernel) (.inr (by decide +kernel))
    .server

end AsioChat
