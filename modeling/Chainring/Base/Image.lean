import Chainring.Base.Bytes

/-! An image that is sent in parts. Its blocks in a row are the image, and whoever writes parts of an image at their
offsets, in any order and as often as they like, has the image as soon as the parts cover it. -/

namespace Chainring.Bytes

/-- The consecutive blocks of `n` bytes, the last of which may be shorter. -/
def chunks (n : Nat) (image : Bytes) : List Bytes :=
  (List.range ((image.length + n - 1) / n)).map fun i => (image.drop (i * n)).take n

/-- A block of the image and its offset. -/
def IsPart (image : Bytes) (part : Nat × Bytes) : Prop := slice image part.1 part.2.length = some part.2

/-- Writing the item is writing a part of the image. -/
def WritesPart {α : Type} (write : Bytes → α → Option Bytes) (image : Bytes) (item : α) (part : Nat × Bytes) : Prop :=
  IsPart image part ∧ ∀ data, data.length = image.length → write data item = patch data part.1 part.2

theorem length_chunks (n : Nat) (image : Bytes) : (chunks n image).length = (image.length + n - 1) / n := by
  rw [chunks, List.length_map, List.length_range]

theorem getElem?_chunks {n i : Nat} {image chunk : Bytes} (h : (chunks n image)[i]? = some chunk) :
    i < (image.length + n - 1) / n ∧ (image.drop (i * n)).take n = chunk := by
  rw [chunks, List.getElem?_map, Option.map_eq_some_iff] at h
  obtain ⟨j, hj, hchunk⟩ := h
  obtain ⟨hlt, hval⟩ := List.getElem?_eq_some_iff.mp hj
  rw [List.getElem_range] at hval
  rw [List.length_range] at hlt
  exact ⟨hlt, hval ▸ hchunk⟩

/-- A chunk lies inside the image and has at most the block's length. -/
theorem chunk_bounds {n i : Nat} {image chunk : Bytes} (hn : 0 < n) (h : (chunks n image)[i]? = some chunk) :
    i * n < image.length ∧ i * n + chunk.length ≤ image.length ∧ chunk.length ≤ n := by
  obtain ⟨hlt, rfl⟩ := getElem?_chunks h
  rw [Nat.lt_div_iff_mul_lt hn] at hlt
  rw [List.length_take, List.length_drop]
  omega

/-- The first chunks in a row are what the image begins with. -/
theorem flatten_take_chunks {n i : Nat} {image : Bytes} (hi : i ≤ (chunks n image).length) :
    ((chunks n image).take i).flatten = image.take (i * n) := by
  induction i with
  | zero => rw [Nat.zero_mul, List.take_zero, List.take_zero, List.flatten_nil]
  | succ i ih =>
      have hchunk := List.getElem?_eq_getElem hi
      obtain ⟨-, hblock⟩ := getElem?_chunks hchunk
      rw [List.take_add_one, hchunk, List.flatten_append, ih (Nat.le_of_succ_le hi), Option.toList_some,
        List.flatten_singleton, ← hblock, Nat.succ_mul, List.take_add]

theorem flatten_chunks {n : Nat} (hn : 0 < n) (image : Bytes) : (chunks n image).flatten = image := by
  have hall := flatten_take_chunks (Nat.le_refl (chunks n image).length)
  have hcovers : image.length ≤ (chunks n image).length * n := by
    have hlt : image.length + n - 1 < ((image.length + n - 1) / n + 1) * n := by
      rw [Nat.mul_comm]
      exact Nat.lt_mul_div_succ _ hn
    rw [length_chunks]
    rw [Nat.succ_mul] at hlt
    omega
  rw [List.take_length, List.take_of_length_le hcovers] at hall
  exact hall

theorem isPart_chunk {n i : Nat} {image chunk : Bytes} (h : (chunks n image)[i]? = some chunk) :
    IsPart image (i * n, chunk) := by
  obtain ⟨-, rfl⟩ := getElem?_chunks h
  have htake : (image.drop (i * n)).take ((image.drop (i * n)).take n).length = (image.drop (i * n)).take n := by
    rw [List.length_take, ← List.take_take, List.take_length]
  show slice image (i * n) ((image.drop (i * n)).take n).length = some _
  rw [slice]
  simp only [htake, if_true]

/-- Each byte of the image is in the chunk that its offset falls into. -/
theorem chunks_cover {n o : Nat} {image : Bytes} (hn : 0 < n) (ho : o < image.length) :
    ∃ i chunk, (chunks n image)[i]? = some chunk ∧ i * n ≤ o ∧ o < i * n + chunk.length := by
  have hdiv : o / n * n ≤ o := Nat.div_mul_le_self o n
  have hmod : o < o / n * n + n := by
    rw [Nat.mul_comm]
    exact Nat.lt_mul_div_succ o hn
  have hi : o / n < (image.length + n - 1) / n := by
    rw [Nat.lt_div_iff_mul_lt hn]
    omega
  refine ⟨o / n, (image.drop (o / n * n)).take n, ?_, hdiv, ?_⟩
  · rw [chunks, List.getElem?_map, List.getElem?_range hi]
    rfl
  · rw [List.length_take, List.length_drop]
    omega

/-- A part of the image leaves its bytes and keeps the ones that were right. -/
theorem patch_part {image data : Bytes} {part : Nat × Bytes} (hlength : data.length = image.length)
    (hpart : IsPart image part) :
    ∃ data', patch data part.1 part.2 = some data' ∧ data'.length = image.length ∧
      ∀ o, data[o]? = image[o]? ∨ (part.1 ≤ o ∧ o < part.1 + part.2.length) → data'[o]? = image[o]? := by
  obtain ⟨offset, block⟩ := part
  rcases Nat.eq_zero_or_pos block.length with hzero | hpos
  · obtain rfl := List.eq_nil_of_length_eq_zero hzero
    refine ⟨data, by simp [patch, slice], hlength, fun o ho => ho.resolve_right ?_⟩
    rintro ⟨hlow, hhigh⟩
    exact absurd hhigh (Nat.not_lt.mpr hlow)
  · have hle : offset + block.length ≤ data.length := by
      rw [hlength]
      exact slice_le hpos hpart
    obtain ⟨data', hpatch⟩ := patch_isSome hle
    refine ⟨data', hpatch, (patch_length hpatch).trans hlength, fun o ho => ?_⟩
    by_cases hin : offset ≤ o ∧ o < offset + block.length
    · have hlt : o - offset < block.length := by omega
      have hbyte := (slice_eq_some.mp hpart).2 (o - offset) hlt
      rw [Nat.add_sub_cancel' hin.1] at hbyte
      rw [(patch_eq_some hpatch).2.2, if_pos hin, hbyte]
    · rw [patch_outside hpatch hin]
      exact ho.resolve_right hin

/-- Items that are written as parts of the image and cover it leave the image. -/
theorem foldlM_parts {α : Type} {write : Bytes → α → Option Bytes} {image data : Bytes} {items : List α}
    (hlength : data.length = image.length) (hitems : ∀ item ∈ items, ∃ part, WritesPart write image item part)
    (hcover : ∀ o, o < image.length → data[o]? = image[o]? ∨
      ∃ item ∈ items, ∃ part, WritesPart write image item part ∧ part.1 ≤ o ∧ o < part.1 + part.2.length) :
    items.foldlM write data = some image := by
  induction items generalizing data with
  | nil =>
      have heq : data = image := by
        apply List.ext_getElem?
        intro o
        by_cases ho : o < image.length
        · exact (hcover o ho).resolve_right fun ⟨item, hmem, _⟩ => absurd hmem List.not_mem_nil
        · rw [List.getElem?_eq_none (by omega), List.getElem?_eq_none (by omega)]
      rw [heq]
      rfl
  | cons item items ih =>
      obtain ⟨⟨part, hpart, hwrite⟩, hrest⟩ := List.forall_mem_cons.mp hitems
      obtain ⟨data', hpatch, hlength', hbytes⟩ := patch_part hlength hpart
      rw [List.foldlM_cons, hwrite data hlength, hpatch]
      refine ih hlength' hrest fun o ho => ?_
      rcases hcover o ho with hright | ⟨other, hmem, part', ⟨hpart', hwrite'⟩, hin⟩
      · exact Or.inl (hbytes o (Or.inl hright))
      · rcases List.mem_cons.mp hmem with rfl | hmem
        · obtain ⟨data'', hpatch', -, hbytes'⟩ := patch_part hlength hpart'
          have hsame : some data' = some data'' := by
            rw [← hpatch, ← hwrite data hlength, hwrite' data hlength, hpatch']
          obtain rfl := Option.some.inj hsame
          exact Or.inl (hbytes' o (Or.inr hin))
        · exact Or.inr ⟨other, hmem, part', ⟨hpart', hwrite'⟩, hin⟩

end Chainring.Bytes
