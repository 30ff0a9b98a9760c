import AsioChat.Receive

/-!
# What the Header Check Catches

Both programs compare `crc_` with `calculate_crc()` before they believe a header. The header
`build_packet` writes passes, whatever the alignment bytes between `id_` and `content_size_`
hold, as these are summed where they stand. A header damaged on the way does not pass, if
the damage is confined to four consecutive bytes of the eight that are summed, or to `crc_`:
the checksum is as wide as four bytes, and loses nothing of the others.

## Main results

* `PacketHeader.crc_of_altered`: a damaged header has a wrong checksum.
* `builtHeader_check`: what `build_packet` writes is accepted, and none of its alterations is.
-/

namespace AsioChat

/-- An alteration of a header: at least one byte changes, and all that change are among four
consecutive bytes, which lie before `crc_` or are those of `crc_`. -/
structure Altered (bs bs' : List UInt8) : Prop where
  length_eq : bs'.length = bs.length
  window : ∃ k, (k ≤ 4 ∨ k = 8) ∧ ∀ i, i < k ∨ k + 4 ≤ i → bs'[i]? = bs[i]?
  ne : bs' ≠ bs

/-- Outside of the four bytes nothing changes. -/
theorem take_drop_of_window {bs bs' : List UInt8} {k : ℕ}
    (h : ∀ i, i < k ∨ k + 4 ≤ i → bs'[i]? = bs[i]?) :
    bs'.take k = bs.take k ∧ bs'.drop (k + 4) = bs.drop (k + 4) := by
  refine ⟨List.ext_getElem? fun i => ?_, List.ext_getElem? fun i => ?_⟩
  · rw [List.getElem?_take, List.getElem?_take]
    split
    · rename_i hlt
      exact h i (.inl hlt)
    · rfl
  · rw [List.getElem?_drop, List.getElem?_drop]
    exact h _ (.inr (Nat.le_add_right _ _))

/-- A list is what stands before, within and behind four of its elements. -/
theorem take_append_take_append_drop (bs : List UInt8) (k : ℕ) :
    bs.take k ++ (bs.drop k).take 4 ++ bs.drop (k + 4) = bs := by
  rw [List.append_assoc, ← List.drop_drop, List.take_append_drop, List.take_append_drop]

namespace Crc32

/-- The polynomial has its highest coefficient. -/
theorem msb_poly : poly.msb = true := by decide

/-- Two remainders with one checksum are equal. -/
theorem eq_of_checksum_eq {crc crc' : Crc32} (h : crc.checksum = crc'.checksum) : crc = crc' := by
  obtain ⟨rem⟩ := crc
  obtain ⟨rem'⟩ := crc'
  have hxor : rem ^^^ 0xFFFFFFFF#32 = rem' ^^^ 0xFFFFFFFF#32 := congrArg UInt32.toBitVec h
  exact congrArg Crc32.mk ((BitVec.xor_left_inj _).mp hxor)

/-- **The checksum of a byte list tells it from every other one that differs in four
consecutive bytes.** -/
theorem eq_of_processBytes_eq {as bs bs' cs : List UInt8} (hbs : bs.length = 4)
    (hbs' : bs'.length = 4)
    (h : (initial.processBytes (as ++ bs ++ cs)).checksum =
      (initial.processBytes (as ++ bs' ++ cs)).checksum) : bs = bs' := by
  have hfold := congrArg Crc32.rem (eq_of_checksum_eq h)
  exact Crc.eq_of_fold_eq msb_poly (hbs.trans hbs'.symm) (by omega) hfold

end Crc32

namespace PacketHeader

/-- The checksum of the header at the front of some memory. -/
theorem freshCrc_ofBytes {bs : List UInt8} (h : bs.length = 12) :
    (ofBytes bs).freshCrc = (Crc32.initial.processBytes (bs.take 8)).checksum := by
  rw [freshCrc, calculateCrc, toBytes_ofBytes (Nat.le_of_eq h.symm), List.take_take]
  rfl

/-- The checksum does not depend on what `crc_` holds, and the other way round. -/
theorem crc_ofBytes_congr {bs bs' : List UInt8} (h : bs'.drop 8 = bs.drop 8) :
    (ofBytes bs').crc = (ofBytes bs).crc := by
  rw [ofBytes, ofBytes, h]

/-- The four bytes of `crc_` are determined by its value. -/
theorem drop_eq_of_crc_eq {bs bs' : List UInt8} (hbs : bs.length = 12) (hbs' : bs'.length = 12)
    (h : (ofBytes bs').crc = (ofBytes bs).crc) : bs'.drop 8 = bs.drop 8 := by
  have hbytes : ∀ l : List UInt8, l.length = 12 →
      LittleEndian.bytes 4 (ofBytes l).crc.toNat = l.drop 8 := by
    intro l hl
    have hlen : ((l.drop 8).take 4).length = 4 := by simp [hl]
    rw [ofBytes, UInt32.toNat_ofNat_of_lt' (LittleEndian.value_lt_of_length hlen),
      LittleEndian.bytes_value_of_length hlen, List.take_of_length_le (by simp [hl])]
  rw [← hbytes bs' hbs', ← hbytes bs hbs, h]

/-- **An altered header has a wrong checksum.** -/
theorem crc_of_altered {bs bs' : List UInt8} (hlen : bs.length = 12)
    (hcrc : (ofBytes bs).freshCrc = (ofBytes bs).crc) (h : Altered bs bs') :
    (ofBytes bs').freshCrc ≠ (ofBytes bs').crc := by
  intro hcrc'
  obtain ⟨k, hk, hwindow⟩ := h.window
  have hlen' : bs'.length = 12 := h.length_eq.trans hlen
  obtain ⟨htake, hdrop⟩ := take_drop_of_window hwindow
  refine h.ne ?_
  rcases hk with hk | rfl
  · -- four of the bytes that are summed
    have hbehind : bs'.drop 8 = bs.drop 8 := by
      have hsplit : ∀ l : List UInt8, l.drop 8 = (l.drop (k + 4)).drop (4 - k) := fun l => by
        rw [List.drop_drop]
        congr 1
        omega
      rw [hsplit bs', hsplit bs, hdrop]
    have hsum : (ofBytes bs').freshCrc = (ofBytes bs).freshCrc := by
      rw [hcrc', hcrc, crc_ofBytes_congr hbehind]
    have height : ∀ l : List UInt8, l.take 8 =
        l.take k ++ (l.drop k).take 4 ++ (l.drop (k + 4)).take (4 - k) := fun l => by
      rw [List.append_assoc, ← List.drop_drop, ← List.take_add, ← List.take_add]
      congr 1
      omega
    rw [freshCrc_ofBytes hlen', freshCrc_ofBytes hlen, height bs', height bs, htake, hdrop] at hsum
    have hmid : (bs'.drop k).take 4 = (bs.drop k).take 4 :=
      Crc32.eq_of_processBytes_eq (by simp; omega) (by simp; omega) hsum
    rw [← take_append_take_append_drop bs' k, htake, hmid, hdrop, take_append_take_append_drop]
  · -- the bytes of `crc_`
    have hsum : (ofBytes bs').freshCrc = (ofBytes bs).freshCrc := by
      rw [freshCrc_ofBytes hlen', freshCrc_ofBytes hlen, htake]
    have hbehind : bs'.drop 8 = bs.drop 8 :=
      drop_eq_of_crc_eq hlen hlen' (by rw [← hcrc', hsum, hcrc])
    rw [← List.take_append_drop 8 bs', htake, hbehind, List.take_append_drop]

end PacketHeader

/-- Neither program accepts a header with a wrong checksum. -/
theorem Side.checkHeader_eq_false {side : Side} {header : PacketHeader}
    (h : header.freshCrc ≠ header.crc) : side.checkHeader header = false := by
  refine Bool.eq_false_iff.mpr fun hcheck => ?_
  exact h (Side.freshCrc_of_checkHeader hcheck)

/-- The twelve bytes of the header `build_packet` writes. -/
def builtBytes (fresh : ℕ → UInt8) (id contentSize : UInt32) : List UInt8 :=
  (buildPacket fresh id contentSize).take 12

/-- **The header `build_packet` writes has the checksum its receivers compute, and no
alteration of it is accepted**: for every identifier, every content size that does not wrap
and whatever the freshly allocated memory held. -/
theorem builtHeader_check (fresh : ℕ → UInt8) (id contentSize : UInt32) :
    (PacketHeader.ofBytes (builtBytes fresh id contentSize)).crc =
        (PacketHeader.ofBytes (builtBytes fresh id contentSize)).freshCrc ∧
      ∀ (side : Side) (bs' : List UInt8), Altered (builtBytes fresh id contentSize) bs' →
        side.checkHeader (.ofBytes bs') = false := by
  have hbytes : builtBytes fresh id contentSize = (builtHeader fresh id contentSize).toBytes := by
    rw [builtBytes, buildPacket_eq, List.take_left' (PacketHeader.length_toBytes _)]
  have hread : PacketHeader.ofBytes (builtBytes fresh id contentSize) =
      builtHeader fresh id contentSize := by
    rw [hbytes, ← List.append_nil (PacketHeader.toBytes _), PacketHeader.ofBytes_toBytes_append]
  have hcrc := builtHeader_crc fresh id contentSize
  have hlen : (builtBytes fresh id contentSize).length = 12 := by
    rw [hbytes, PacketHeader.length_toBytes]
  rw [hread]
  refine ⟨hcrc, fun side bs' haltered => Side.checkHeader_eq_false ?_⟩
  exact PacketHeader.crc_of_altered hlen (by rw [hread, ← hcrc]) haltered

/-- A chat request that arrives as a notice is not accepted. -/
theorem builtHeader_check_of_request :
    Altered (builtBytes (fun _ => 170) 6 4) ((builtBytes (fun _ => 170) 6 4).set 0 7) ∧
      Side.client.checkHeader (.ofBytes ((builtBytes (fun _ => 170) 6 4).set 0 7)) = false := by
  have haltered : Altered (builtBytes (fun _ => 170) 6 4)
      ((builtBytes (fun _ => 170) 6 4).set 0 7) := by
    refine ⟨List.length_set, ⟨0, .inl (Nat.zero_le 4), fun i hi => ?_⟩, by decide +kernel⟩
    exact List.getElem?_set_ne (by omega)
  exact ⟨haltered, (builtHeader_check (fun _ => 170) 6 4).2 .client _ haltered⟩

end AsioChat
