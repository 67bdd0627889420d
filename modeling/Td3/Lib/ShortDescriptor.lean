/-
The translation tables of ARMv7-A in the short-descriptor format, and the walk of them that
translates a virtual address: a level-1 table of 4096 entries, one a megabyte, and level-2 tables of
256 entries, one a page. Memory is word-addressed, as in `Arm`.
-/
import Td3.Lib.Arm

namespace Td3.Arm

/-! ## The walk -/

/-- What the entry of a small page says besides its frame. -/
@[ext]
structure PageAttributes where
  nG : Bool
  s : Bool
  ap : BitVec 3
  tex : BitVec 3
  c : Bool
  b : Bool
  xn : Bool
deriving DecidableEq, Repr

def PageAttributes.ofEntry (e : Word) : PageAttributes where
  nG := e.getLsbD 11
  s := e.getLsbD 10
  ap := (e.extractLsb' 9 1 ++ e.extractLsb' 4 2).cast rfl
  tex := e.extractLsb' 6 3
  c := e.getLsbD 3
  b := e.getLsbD 2
  xn := e.getLsbD 0

/-- Shareable device memory: TEX = 0b000, C = 0 and B = 1, with TEX remap disabled -/
def PageAttributes.ShareableDevice (a : PageAttributes) : Prop := a.tex = 0 ∧ a.c = false ∧ a.b = true

instance PageAttributes.decidableShareableDevice (a : PageAttributes) : Decidable a.ShareableDevice :=
  inferInstanceAs (Decidable (_ ∧ _ ∧ _))

/-- How a walk ends. The entries of sections and of large pages are not taken apart. -/
inductive Walk where
  | fault
  | sectionEntry (entry : Word)
  | largePage (entry : Word)
  | smallPage (pa : Word) (domain : BitVec 4) (attributes : PageAttributes)
deriving DecidableEq, Repr

/-- The word of the level-1 table at word `table1` that a walk for `va` reads. -/
def level1Index (table1 : Nat) (va : Word) : Nat := table1 + va.toNat / 2 ^ 20

/-- The word of the level-2 table that an entry of level 1 points to. -/
def level2Index (entry1 va : Word) : Nat := entry1.toNat / 2 ^ 10 * 256 + va.toNat / 2 ^ 12 % 256

/-- The second level of the walk. -/
def walkLevel2 (mem : Nat → Word) (entry1 va : Word) : Walk :=
  let entry2 := mem (level2Index entry1 va)
  if entry2.extractLsb' 0 2 = 0 then .fault
  else if entry2.extractLsb' 0 2 = 1 then .largePage entry2
  else .smallPage (BitVec.ofNat 32 (entry2.toNat / 2 ^ 12 * 2 ^ 12 + va.toNat % 2 ^ 12)) (entry1.extractLsb' 5 4)
    (.ofEntry entry2)

/-- The translation of `va` by the level-1 table at word `table1` (TTBR0, with TTBCR.N = 0). -/
def walk (mem : Nat → Word) (table1 : Nat) (va : Word) : Walk :=
  let entry1 := mem (level1Index table1 va)
  if entry1.extractLsb' 0 2 = 0 then .fault
  else if entry1.extractLsb' 0 2 = 1 then walkLevel2 mem entry1 va
  else .sectionEntry entry1

section
variable {mem mem' : Nat → Word} {table1 : Nat} {va : Word}

theorem walk_of_zero (h : mem (level1Index table1 va) = 0) : walk mem table1 va = .fault := by
  rw [walk, h]
  rfl

theorem walk_of_table (h : (mem (level1Index table1 va)).extractLsb' 0 2 = 1) :
    walk mem table1 va = walkLevel2 mem (mem (level1Index table1 va)) va := by
  rw [walk, h]
  rfl

theorem walkLevel2_of_zero {entry1 : Word} (h : mem (level2Index entry1 va) = 0) :
    walkLevel2 mem entry1 va = .fault := by
  rw [walkLevel2, h]
  rfl

theorem walkLevel2_of_smallPage {entry1 : Word} (h : (mem (level2Index entry1 va)).getLsbD 1 = true) :
    walkLevel2 mem entry1 va = .smallPage
      (BitVec.ofNat 32 ((mem (level2Index entry1 va)).toNat / 2 ^ 12 * 2 ^ 12 + va.toNat % 2 ^ 12))
      (entry1.extractLsb' 5 4) (.ofEntry (mem (level2Index entry1 va))) := by
  have hbit : ((mem (level2Index entry1 va)).extractLsb' 0 2).getLsbD 1 = true := by
    rw [BitVec.getLsbD_extractLsb']
    simpa using h
  rw [walkLevel2, if_neg, if_neg]
  · intro h1
    rw [h1] at hbit
    exact absurd hbit (by decide)
  · intro h0
    rw [h0] at hbit
    exact absurd hbit (by decide)

/-- A walk reads one word of each level. -/
theorem walk_congr (h1 : mem' (level1Index table1 va) = mem (level1Index table1 va))
    (h2 : (mem (level1Index table1 va)).extractLsb' 0 2 = 1 →
      mem' (level2Index (mem (level1Index table1 va)) va) = mem (level2Index (mem (level1Index table1 va)) va)) :
    walk mem' table1 va = walk mem table1 va := by
  rw [walk, walk, h1]
  by_cases h : (mem (level1Index table1 va)).extractLsb' 0 2 = 1
  · rw [if_pos h, if_pos h, walkLevel2, walkLevel2, h2 h]
  · rw [if_neg h, if_neg h]

/-- The small page that a walk ends at -/
theorem walk_smallPage_iff {pa : Word} {domain : BitVec 4} {attributes : PageAttributes} :
    walk mem table1 va = .smallPage pa domain attributes ↔
      (mem (level1Index table1 va)).extractLsb' 0 2 = 1 ∧
      (mem (level2Index (mem (level1Index table1 va)) va)).extractLsb' 0 2 ≠ 0 ∧
      (mem (level2Index (mem (level1Index table1 va)) va)).extractLsb' 0 2 ≠ 1 ∧
      BitVec.ofNat 32 ((mem (level2Index (mem (level1Index table1 va)) va)).toNat / 2 ^ 12 * 2 ^ 12 +
        va.toNat % 2 ^ 12) = pa ∧
      (mem (level1Index table1 va)).extractLsb' 5 4 = domain ∧
      .ofEntry (mem (level2Index (mem (level1Index table1 va)) va)) = attributes := by
  unfold walk walkLevel2
  dsimp only
  generalize mem (level1Index table1 va) = entry1
  generalize mem (level2Index entry1 va) = entry2
  constructor
  · intro h
    split_ifs at h with h0 h1 h2 h3
    injection h with hpa hdomain hattributes
    exact ⟨h1, h2, h3, hpa, hdomain, hattributes⟩
  · rintro ⟨h1, h2, h3, rfl, rfl, rfl⟩
    rw [if_neg (by rw [h1]; decide), if_pos h1, if_neg h2, if_neg h3]

theorem level1Index_samePage {va' : Word} (hpage : va'.toNat / 2 ^ 12 = va.toNat / 2 ^ 12) :
    level1Index table1 va' = level1Index table1 va := by
  unfold level1Index
  omega

theorem level2Index_samePage {va' entry1 : Word} (hpage : va'.toNat / 2 ^ 12 = va.toNat / 2 ^ 12) :
    level2Index entry1 va' = level2Index entry1 va := by
  rw [level2Index, level2Index, hpage]

/-- All addresses of a page have one frame. -/
theorem walk_samePage {va' pa : Word} {domain : BitVec 4} {attributes : PageAttributes}
    (hpage : va'.toNat / 2 ^ 12 = va.toNat / 2 ^ 12) (h : walk mem table1 va = .smallPage pa domain attributes) :
    walk mem table1 va' =
      .smallPage (BitVec.ofNat 32 (pa.toNat / 2 ^ 12 * 2 ^ 12 + va'.toNat % 2 ^ 12)) domain attributes := by
  obtain ⟨htype1, htype0, htype, rfl, hdomain, hattributes⟩ := walk_smallPage_iff.1 h
  rw [walk_smallPage_iff, level1Index_samePage hpage, level2Index_samePage hpage]
  refine ⟨htype1, htype0, htype, ?_, hdomain, hattributes⟩
  apply BitVec.eq_of_toNat_eq
  rw [BitVec.toNat_ofNat, BitVec.toNat_ofNat, BitVec.toNat_ofNat]
  omega

theorem walk_fault_samePage {va' : Word} (hpage : va'.toNat / 2 ^ 12 = va.toNat / 2 ^ 12)
    (h : walk mem table1 va = .fault) : walk mem table1 va' = .fault := by
  unfold walk walkLevel2 at h ⊢
  dsimp only at h ⊢
  rw [level1Index_samePage hpage, level2Index_samePage hpage]
  split_ifs at h ⊢
  · rfl
  · rfl

theorem walk_offset {pa : Word} {domain : BitVec 4} {attributes : PageAttributes}
    (h : walk mem table1 va = .smallPage pa domain attributes) : pa.toNat % 2 ^ 12 = va.toNat % 2 ^ 12 := by
  obtain ⟨-, -, -, rfl, -, -⟩ := walk_smallPage_iff.1 h
  rw [BitVec.toNat_ofNat]
  omega

/-- Within a page, physical addresses follow each other as the virtual ones do. -/
theorem walk_add {pa : Word} {domain : BitVec 4} {attributes : PageAttributes} {i : Nat}
    (h : walk mem table1 va = .smallPage pa domain attributes) (hi : va.toNat % 2 ^ 12 + i < 2 ^ 12) :
    walk mem table1 (va + BitVec.ofNat 32 i) = .smallPage (pa + BitVec.ofNat 32 i) domain attributes := by
  have hlt := va.isLt
  have hpage : (va + BitVec.ofNat 32 i).toNat / 2 ^ 12 = va.toNat / 2 ^ 12 := by
    rw [BitVec.toNat_add, BitVec.toNat_ofNat]
    omega
  have hoffset := walk_offset h
  rw [walk_samePage hpage h]
  congr 1
  apply BitVec.eq_of_toNat_eq
  simp only [BitVec.toNat_add, BitVec.toNat_ofNat]
  have := pa.isLt
  omega

end

/-! ## Entries put together by `orr` -/

theorem toNat_or_div {x y : Word} {k : Nat} (hy : y.toNat < 2 ^ k) : (x ||| y).toNat / 2 ^ k = x.toNat / 2 ^ k := by
  rw [BitVec.toNat_or, Nat.or_div_two_pow, Nat.div_eq_of_lt hy, Nat.or_zero]

/-- `bic` of the low `k` bits -/
theorem and_not_low (x : Word) (k : Nat) :
    x &&& ~~~BitVec.ofNat 32 (2 ^ k - 1) = BitVec.ofNat 32 (x.toNat / 2 ^ k * 2 ^ k) := by
  have hshift : BitVec.ofNat 32 (x.toNat / 2 ^ k * 2 ^ k) = (x >>> k) <<< k := by
    apply BitVec.eq_of_toNat_eq
    rw [BitVec.toNat_shiftLeft, BitVec.toNat_ushiftRight, BitVec.toNat_ofNat, Nat.shiftLeft_eq,
      Nat.shiftRight_eq_div_pow]
  rw [hshift]
  apply BitVec.eq_of_getLsbD_eq
  intro i hi
  rw [BitVec.getLsbD_and, BitVec.getLsbD_not, BitVec.getLsbD_ofNat, Nat.testBit_two_pow_sub_one,
    BitVec.getLsbD_shiftLeft, BitVec.getLsbD_ushiftRight]
  by_cases hk : i < k
  · simp [hi, hk]
  · rw [Nat.add_sub_cancel' (Nat.le_of_not_lt hk)]
    simp [hi, hk]

/-- The entry of level 1 that points to the level-2 table at `table2`. -/
def tableEntry (table2 domain : Word) : Word := table2 ||| domain <<< 5 ||| 1#32

section
variable {i : Nat} {domain : Word}

theorem tableEntry_low (hd : domain.toNat < 32) : (domain <<< 5 ||| 1#32).toNat < 2 ^ 10 := by
  rw [BitVec.toNat_or]
  apply Nat.or_lt_two_pow
  · rw [BitVec.toNat_shiftLeft, Nat.shiftLeft_eq]
    omega
  · decide

theorem addrOf_mod {k : Nat} (hk : k < 10) : (addrOf (256 * i)).getLsbD k = false := by
  have h : addrOf (256 * i) = BitVec.ofNat 32 i <<< 10 := by
    apply BitVec.eq_of_toNat_eq
    rw [addrOf, BitVec.toNat_shiftLeft, BitVec.toNat_ofNat, BitVec.toNat_ofNat, Nat.shiftLeft_eq]
    omega
  rw [h, BitVec.getLsbD_shiftLeft]
  simp [hk]

/-- The entry points to its table. -/
theorem tableEntry_table (hi : i < 2 ^ 22) (hd : domain.toNat < 32) :
    (tableEntry (addrOf (256 * i)) domain).toNat / 2 ^ 10 = i := by
  rw [tableEntry, BitVec.or_assoc, toNat_or_div (tableEntry_low hd), addrOf, BitVec.toNat_ofNat]
  omega

theorem tableEntry_type : (tableEntry (addrOf (256 * i)) domain).extractLsb' 0 2 = 1 := by
  apply BitVec.eq_of_getLsbD_eq
  intro k hk
  have h := addrOf_mod (i := i) (k := k) (by omega)
  rw [BitVec.getLsbD_extractLsb', tableEntry, BitVec.getLsbD_or, BitVec.getLsbD_or, BitVec.getLsbD_shiftLeft]
  simp [h, hk, show k < 5 by omega]

theorem tableEntry_domain : (tableEntry (addrOf (256 * i)) domain).extractLsb' 5 4 = domain.setWidth 4 := by
  apply BitVec.eq_of_getLsbD_eq
  intro k hk
  have h := addrOf_mod (i := i) (k := 5 + k) (by omega)
  rw [BitVec.getLsbD_extractLsb', tableEntry, BitVec.getLsbD_or, BitVec.getLsbD_or, BitVec.getLsbD_shiftLeft, h,
    BitVec.getLsbD_setWidth]
  simp [hk, show 5 + k < 32 by omega]

theorem tableEntry_ne_zero : tableEntry (addrOf (256 * i)) domain ≠ 0 := by
  intro h
  have htype : (tableEntry (addrOf (256 * i)) domain).extractLsb' 0 2 = 1 := tableEntry_type
  rw [h] at htype
  exact absurd htype (by decide)

end

end Td3.Arm
