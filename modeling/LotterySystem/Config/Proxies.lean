import LotterySystem.Bits.Leading
import LotterySystem.Http.ClientIP

/-!
# Trusted proxies

`TRUSTED_PROXIES` as `parsePrefixes` of `internal/config/config.go` reads it, and
what its items mean to `ClientIP`. `Denotes` says what an item stands for: a bare
address for itself and `addr/bits` for the block of the addresses with the same
first bits, where IPv4 addresses and blocks may be written in their IPv6 form.
-/

namespace LotterySystem.Config

open Text Http Bits

def splitCSV (s : List Char) : List (List Char) :=
  if s = [] then []
  else ((s.splitOn ',').map trimSpace).filter fun p => p ≠ []

/-- One item of the list: a block or a bare address. -/
def parseItem (item : List Char) : Option Prefix :=
  if '/' ∈ item then (parsePrefix item).map Prefix.masked
  else (parseAddr item).map fun a => prefixFrom a.unmap a.unmap.bitLen

/-- The loop ends at the first item that is neither. -/
def parsePrefixes (s : List Char) : Option (List Prefix) := (splitCSV s).mapM parseItem

/-! ## What an item stands for -/

/-- A part between commas, without the white space around it and not blank. -/
def Item (s item : List Char) : Prop := item ≠ [] ∧ ∃ part ∈ s.splitOn ',', trimSpace part = item

/-- The addresses with the same first bits as the prefix. -/
def InBlock : Prefix → Addr → Prop
  | .v4 x n, .v4 y => SameLead n.val x y
  | .v6 x n, .v6 y zone => zone = [] ∧ SameLead n.val x y
  | _, _ => False

/-- A block of IPv4 addresses in their IPv6 form. -/
def Mapped : Prefix → Prop
  | .v6 x n => (Addr.v6 x []).is4In6 = true ∧ 96 ≤ n.val
  | _ => False

/-- The addresses in the range that a prefix stands for. -/
def InRange : Prefix → Addr → Prop
  | .v6 x n, .v4 y => Mapped (.v6 x n) ∧ SameLead (n.val - 96) (x.setWidth 32) y
  | p, a => InBlock p a

/-- The address is in the range that the item denotes. -/
inductive Denotes (item : List Char) (a : Addr) : Prop
  | addr {x : Addr} (hbare : '/' ∉ item) (hparse : parseAddr item = some x)
      (heq : x.unmap = a.unmap)
  | block {p : Prefix} (hslash : '/' ∈ item) (hparse : parsePrefix item = some p)
      (hrange : InRange p a.unmap)

/-- The item is a block of IPv4 addresses in their IPv6 form. -/
def MappedBlock (item : List Char) : Prop :=
  '/' ∈ item ∧ ∃ p ∈ parsePrefix item, Mapped p

/-- The item is a bare address with a zone, and `a` is that address without its zone. -/
def Unzoned (item : List Char) (a : Addr) : Prop :=
  '/' ∉ item ∧ ∃ x y zone, parseAddr item = some x ∧ x.unmap = .v6 y zone ∧ zone ≠ [] ∧
    a.unmap = .v6 y []

section Meaning

variable {s item : List Char} {ps : List Prefix} {p : Prefix} {a b : Addr}

theorem mem_splitCSV_iff : item ∈ splitCSV s ↔ Item s item := by
  rw [splitCSV, Item]
  split
  · rename_i hs
    subst hs
    simp [trimSpace]
  · simp [and_comm]

/-- The comparison under a shift is the comparison of the leading bits. -/
theorem contains_iff : p.contains a = true ↔ InBlock p a := by
  cases p with
  | invalid => cases a <;> simp [Prefix.contains, InBlock]
  | v4 x n =>
      cases a with
      | v4 y =>
          have hn : n.val ≤ 32 := Nat.le_of_lt_succ n.isLt
          have hlead := xor_ushiftRight_eq_zero_iff (x := y) (y := x) hn
          simp only [Prefix.contains, InBlock, decide_eq_true_eq]
          rw [hlead, SameLead.comm]
      | v6 y zone => simp [Prefix.contains, InBlock]
  | v6 x n =>
      cases a with
      | v4 y => simp [Prefix.contains, InBlock]
      | v6 y zone =>
          have hn : n.val ≤ 128 := Nat.le_of_lt_succ n.isLt
          have hlead := xor_ushiftRight_eq_zero_iff (x := y) (y := x) hn
          simp only [Prefix.contains, InBlock, Bool.and_eq_true, decide_eq_true_eq]
          rw [hlead, SameLead.comm]

theorem inBlock_masked_iff : InBlock p.masked a ↔ InBlock p a := by
  cases p with
  | invalid => rfl
  | v4 x n =>
      cases a with
      | v4 y => exact (sameLead_and_mask (Nat.le_of_lt_succ n.isLt) x).congr_left
      | v6 y zone => rfl
  | v6 x n =>
      cases a with
      | v4 y => rfl
      | v6 y zone =>
          exact and_congr_right fun _ => (sameLead_and_mask (Nat.le_of_lt_succ n.isLt) x).congr_left

theorem zone_unmap (ha : a.zone = []) : a.unmap.zone = [] := by
  cases a with
  | v4 y => rfl
  | v6 y zone =>
      rw [Addr.unmap]
      split
      · rfl
      · exact ha

/-- What has no IPv4 form is not of the form `::ffff:a.b.c.d`. -/
theorem is4In6_of_unmap_eq {y : BitVec 128} {zone : List Char} (h : a.unmap = .v6 y zone) :
    (Addr.v6 y zone).is4In6 = false := by
  cases a with
  | v4 x => cases h
  | v6 x zone' =>
      rw [Addr.unmap] at h
      split at h
      · cases h
      · rename_i hnot
        cases h
        exact Bool.eq_false_iff.mpr hnot

/-- A block of IPv4 addresses in their IPv6 form has no address that is looked at in it: what is
compared with it has been given its IPv4 form. -/
theorem not_inBlock_of_mapped (hp : Mapped p) : ¬ InBlock p a.unmap := by
  intro h
  cases p with
  | invalid | v4 x n => exact hp
  | v6 x n =>
      cases hb : a.unmap with
      | v4 y =>
          rw [hb] at h
          exact h
      | v6 y zone =>
          rw [hb] at h
          have hlead : SameLead 96 x y := h.2.mono hp.2
          have hshift : x >>> 32 = y >>> 32 := (sameLead_iff_ushiftRight_eq (by decide)).mp hlead
          have hx : x >>> 32 = 0xffff := of_decide_eq_true hp.1
          have hy : y >>> 32 ≠ 0xffff := of_decide_eq_false (is4In6_of_unmap_eq hb)
          exact hy (hshift.symm.trans hx)

/-- Otherwise the block is the range that the prefix stands for. -/
theorem inRange_iff_of_not_mapped (hp : ¬ Mapped p) : InRange p a ↔ InBlock p a := by
  cases p with
  | invalid | v4 x n => rfl
  | v6 x n =>
      cases a with
      | v4 y => simp [InRange, InBlock, hp]
      | v6 y zone => rfl

/-- The prefix of a bare address contains that address, without its zone. -/
theorem inBlock_prefixFrom_iff {x b : Addr} (hb : b.zone = []) :
    InBlock (prefixFrom x x.bitLen) b ↔
      x = b ∨ ∃ y zone, x = .v6 y zone ∧ zone ≠ [] ∧ b = .v6 y [] := by
  cases x with
  | v4 x =>
      cases b with
      | v4 y =>
          change SameLead 32 x y ↔ _
          rw [sameLead_width_iff]
          simp
      | v6 y zone => simp [prefixFrom, Addr.bitLen, InBlock]
  | v6 x zone =>
      cases b with
      | v4 y => simp [prefixFrom, Addr.bitLen, InBlock]
      | v6 y zone' =>
          obtain rfl : zone' = [] := hb
          change [] = [] ∧ SameLead 128 x y ↔ _
          rw [sameLead_width_iff]
          by_cases hzone : zone = []
          · simp [hzone]
          · simp [hzone, eq_comm]

theorem contains_block_iff (hslash : '/' ∈ item) (hparse : parsePrefix item = some p) :
    p.masked.contains a.unmap = true ↔ Denotes item a ∧ ¬ MappedBlock item := by
  rw [contains_iff, inBlock_masked_iff]
  constructor
  · intro hblock
    have hmapped : ¬ Mapped p := fun hm => not_inBlock_of_mapped hm hblock
    refine ⟨.block hslash hparse ((inRange_iff_of_not_mapped hmapped).mpr hblock), ?_⟩
    rintro ⟨_, q, hq, hm⟩
    exact hmapped (Option.mem_unique hq hparse ▸ hm)
  · rintro ⟨hden, hmapped⟩
    cases hden with
    | addr hbare => exact absurd hslash hbare
    | @block q _ hparse' hrange =>
        cases hparse.symm.trans hparse'
        exact (inRange_iff_of_not_mapped fun hm => hmapped ⟨hslash, p, hparse, hm⟩).mp hrange

theorem contains_bare_iff {x : Addr} (hbare : '/' ∉ item) (hparse : parseAddr item = some x)
    (ha : a.zone = []) :
    (prefixFrom x.unmap x.unmap.bitLen).contains a.unmap = true ↔
      Denotes item a ∨ Unzoned item a := by
  rw [contains_iff, inBlock_prefixFrom_iff (zone_unmap ha)]
  constructor
  · rintro (heq | ⟨y, zone, hx, hzone, hy⟩)
    · exact Or.inl (.addr hbare hparse heq)
    · exact Or.inr ⟨hbare, x, y, zone, hparse, hx, hzone, hy⟩
  · rintro (hden | ⟨_, x', y, zone, hparse', hx, hzone, hy⟩)
    · cases hden with
      | addr _ hparse' heq =>
          cases hparse.symm.trans hparse'
          exact Or.inl heq
      | block hslash => exact absurd hslash hbare
    · cases hparse.symm.trans hparse'
      exact Or.inr ⟨y, zone, hx, hzone, hy⟩

/-- What the prefix of an item contains. -/
theorem contains_of_parseItem (h : parseItem item = some p) (ha : a.zone = []) :
    p.contains a.unmap = true ↔ (Denotes item a ∧ ¬ MappedBlock item) ∨ Unzoned item a := by
  rw [parseItem] at h
  split at h
  · rename_i hslash
    obtain ⟨q, hparse, rfl⟩ := Option.map_eq_some_iff.mp h
    have hnot : ¬ Unzoned item a := fun hu => hu.1 hslash
    simp [contains_block_iff hslash hparse, hnot]
  · rename_i hbare
    obtain ⟨x, hparse, rfl⟩ := Option.map_eq_some_iff.mp h
    have hnot : ¬ MappedBlock item := fun hm => hbare hm.1
    simp [contains_bare_iff hbare hparse ha, hnot]

/-- A list that is parsed item by item has the values of its items. -/
theorem exists_mem_mapM_iff {α β : Type} {f : α → Option β} {xs : List α} {ys : List β}
    (h : xs.mapM f = some ys) {P : β → Prop} :
    (∃ y ∈ ys, P y) ↔ ∃ x ∈ xs, ∃ y, f x = some y ∧ P y := by
  induction xs generalizing ys with
  | nil =>
      cases h
      simp
  | cons x xs ih =>
      rw [List.mapM_cons] at h
      obtain ⟨y, hy, hrest⟩ := Option.bind_eq_some_iff.mp h
      obtain ⟨zs, hzs, heq⟩ := Option.bind_eq_some_iff.mp hrest
      cases heq
      simp [ih hzs, hy]

theorem exists_of_mem_mapM {α β : Type} {f : α → Option β} {xs : List α} {ys : List β}
    (h : xs.mapM f = some ys) {x : α} (hx : x ∈ xs) : ∃ y, f x = some y := by
  induction xs generalizing ys with
  | nil => cases hx
  | cons x' xs ih =>
      rw [List.mapM_cons] at h
      obtain ⟨y, hy, hrest⟩ := Option.bind_eq_some_iff.mp h
      obtain ⟨zs, hzs, _⟩ := Option.bind_eq_some_iff.mp hrest
      rcases List.mem_cons.mp hx with rfl | hx
      · exact ⟨y, hy⟩
      · exact ih hzs hx

/-- Who is trusted. -/
theorem isTrusted_iff (h : parsePrefixes s = some ps) (ha : a.zone = []) :
    isTrusted ps a = true ↔
      ∃ item, Item s item ∧ ((Denotes item a ∧ ¬ MappedBlock item) ∨ Unzoned item a) := by
  rw [isTrusted, List.any_eq_true, exists_mem_mapM_iff h]
  constructor
  · rintro ⟨item, hitem, p, hparse, hcontains⟩
    exact ⟨item, mem_splitCSV_iff.mp hitem, (contains_of_parseItem hparse ha).mp hcontains⟩
  · rintro ⟨item, hitem, hmeans⟩
    have hmem := mem_splitCSV_iff.mpr hitem
    obtain ⟨p, hparse⟩ := exists_of_mem_mapM h hmem
    exact ⟨item, hmem, p, hparse, (contains_of_parseItem hparse ha).mpr hmeans⟩

/-- An address in a block that is written in IPv6 form is an IPv4 address. -/
theorem not_unzoned_of_mapped {item' : List Char} (hm : MappedBlock item) (hd : Denotes item a) :
    ¬ Unzoned item' a := by
  rintro ⟨_, x, y, zone, _, _, _, hy⟩
  obtain ⟨hslash, p, hp, hmapped⟩ := hm
  cases hd with
  | addr hbare => exact hbare hslash
  | @block q _ hparse hrange =>
      cases hparse.symm.trans hp
      have hblock : InBlock p a.unmap := by
        rw [hy] at hrange ⊢
        cases p with
        | invalid | v4 x n => exact hrange
        | v6 x n => exact hrange
      exact not_inBlock_of_mapped hmapped hblock

theorem means_iff (h : parsePrefixes s = some ps) (ha : a.zone = []) :
    (isTrusted ps a = true ↔ ∃ item, Item s item ∧ Denotes item a) ↔
      (∀ item, Item s item → MappedBlock item → Denotes item a →
        ∃ other, Item s other ∧ ¬ MappedBlock other ∧ Denotes other a) ∧
      ∀ item, Item s item → Unzoned item a → ∃ other, Item s other ∧ Denotes other a := by
  rw [isTrusted_iff h ha]
  constructor
  · intro hmeans
    constructor
    · intro item hitem hmapped hden
      obtain ⟨other, hother, ⟨hd, hm⟩ | hu⟩ := hmeans.mpr ⟨item, hitem, hden⟩
      · exact ⟨other, hother, hm, hd⟩
      · exact absurd hu (not_unzoned_of_mapped hmapped hden)
    · intro item hitem hu
      exact hmeans.mp ⟨item, hitem, Or.inr hu⟩
  · rintro ⟨hblocks, hzones⟩
    constructor
    · rintro ⟨item, hitem, ⟨hd, _⟩ | hu⟩
      · exact ⟨item, hitem, hd⟩
      · exact hzones item hitem hu
    · rintro ⟨item, hitem, hd⟩
      by_cases hm : MappedBlock item
      · obtain ⟨other, hother, hnot, hd'⟩ := hblocks item hitem hm hd
        exact ⟨other, hother, Or.inl ⟨hd', hnot⟩⟩
      · exact ⟨item, hitem, Or.inl ⟨hd, hm⟩⟩

/-- A bare address and the block of its full length. -/
theorem full_block_alike_iff {x : Addr} {q : Prefix} (hbare : '/' ∉ item)
    (hparse : parseAddr item = some x) (hzone : x.zone = []) (hp : parseItem item = some p)
    (hq : parseItem (item ++ '/' :: decimal x.bitLen) = some q) :
    (∀ a : Addr, a.zone = [] → (isTrusted [p] a = true ↔ isTrusted [q] a = true)) ↔
      x.is4In6 = false := by
  have hslash : '/' ∈ item ++ '/' :: decimal x.bitLen := by simp
  rw [parseItem, if_neg hbare, hparse] at hp
  rw [parseItem, if_pos hslash, parsePrefix_full hparse hzone] at hq
  cases hp
  cases hq
  have htrusts (p : Prefix) (a : Addr) : isTrusted [p] a = true ↔ InBlock p a.unmap := by
    simp [isTrusted, contains_iff]
  simp only [htrusts, inBlock_masked_iff]
  constructor
  · intro halike
    by_contra hmapped
    have hself : InBlock (prefixFrom x.unmap x.unmap.bitLen) x.unmap :=
      (inBlock_prefixFrom_iff (zone_unmap hzone)).mpr (Or.inl rfl)
    have hblock := (halike x hzone).mp hself
    cases x with
    | v4 x => exact hmapped rfl
    | v6 x zone =>
        have hfull : Mapped (prefixFrom (.v6 x zone) 128) :=
          ⟨Bool.not_eq_false _ ▸ hmapped, by decide⟩
        exact not_inBlock_of_mapped hfull hblock
  · intro h4 a _
    rw [Addr.unmap_of_not_is4In6 h4]

/-- An accepted list means what it says for an address exactly if no block of IPv4 addresses in
IPv6 form is the only one to name it, and if it is not the address of an item that only a zone tells
apart; and a bare address means the same as its full block exactly if it is not in that form. -/
theorem trusted_proxies_mean_iff (s item : List Char) (ps : List Prefix) (p q : Prefix)
    (a x : Addr) :
    (parsePrefixes s = some ps → a.zone = [] →
      ((isTrusted ps a = true ↔ ∃ item, Item s item ∧ Denotes item a) ↔
        (∀ item, Item s item → MappedBlock item → Denotes item a →
          ∃ other, Item s other ∧ ¬ MappedBlock other ∧ Denotes other a) ∧
        ∀ item, Item s item → Unzoned item a → ∃ other, Item s other ∧ Denotes other a)) ∧
    ('/' ∉ item → parseAddr item = some x → x.zone = [] → parseItem item = some p →
      parseItem (item ++ '/' :: decimal x.bitLen) = some q →
      ((∀ a : Addr, a.zone = [] → (isTrusted [p] a = true ↔ isTrusted [q] a = true)) ↔
        x.is4In6 = false)) := by
  constructor
  · intro h ha
    exact means_iff h ha
  · intro hbare hparse hzone hp hq
    exact full_block_alike_iff hbare hparse hzone hp hq

end Meaning

/-! ## Two lists -/

/-- A block and an address, the latter in IPv6 form. -/
def sampleProxies : List Char := "10.0.0.0/8, ::ffff:192.0.2.1".toList

theorem item_sampleProxies {item : List Char} (h : Item sampleProxies item) :
    item = "10.0.0.0/8".toList ∨ item = "::ffff:192.0.2.1".toList := by
  have hsplit : splitCSV sampleProxies =
      ["10.0.0.0/8".toList, "::ffff:192.0.2.1".toList] := by decide +kernel
  have hmem := mem_splitCSV_iff.mpr h
  rw [hsplit] at hmem
  simpa using hmem

theorem trusted_proxies_mean_iff_sample :
    (isTrusted [.v4 0x0a000000 8, .v4 0xc0000201 32] (.v6 0xffffc0000201 []) = true ↔
      ∃ item, Item sampleProxies item ∧ Denotes item (.v6 0xffffc0000201 [])) ∧
    ¬ ∀ a : Addr, a.zone = [] →
      (isTrusted [.v4 0xc0000201 32] a = true ↔ isTrusted [.v6 0xffffc0000201 128] a = true) := by
  have hsample := trusted_proxies_mean_iff sampleProxies "::ffff:192.0.2.1".toList
    [.v4 0x0a000000 8, .v4 0xc0000201 32] (.v4 0xc0000201 32) (.v6 0xffffc0000201 128)
    (.v6 0xffffc0000201 []) (.v6 0xffffc0000201 [])
  constructor
  · refine (hsample.1 (by decide +kernel) rfl).mpr ⟨?_, ?_⟩
    · rintro item hitem ⟨hslash, p, hp, hmapped⟩
      rcases item_sampleProxies hitem with rfl | rfl
      · have hparse : parsePrefix "10.0.0.0/8".toList = some (.v4 0x0a000000 8) := by
          decide +kernel
        cases Option.mem_unique hp hparse
        exact hmapped.elim
      · exact absurd hslash (by decide +kernel)
    · rintro item hitem ⟨hbare, x, y, zone, hx, hunmap, _, _⟩
      rcases item_sampleProxies hitem with rfl | rfl
      · exact absurd (by decide +kernel) hbare
      · have hparse : parseAddr "::ffff:192.0.2.1".toList = some (.v6 0xffffc0000201 []) := by
          decide +kernel
        cases hx.symm.trans hparse
        have h4 : Addr.unmap (.v6 0xffffc0000201 []) = .v4 0xc0000201 := by decide +kernel
        rw [h4] at hunmap
        cases hunmap
  · rw [hsample.2 (by decide +kernel) (by decide +kernel) rfl (by decide +kernel) (by decide +kernel)]
    decide +kernel

/-- The item is a block that contains `10.1.2.3`, and yet this address is not trusted. -/
theorem mapped_block_trusts_nobody :
    parsePrefixes "::ffff:10.0.0.0/104".toList = some [.v6 0xffff0a000000 104] ∧
      ¬ (isTrusted [.v6 0xffff0a000000 104] (.v4 0x0a010203) = true ↔
        ∃ item, Item "::ffff:10.0.0.0/104".toList item ∧ Denotes item (.v4 0x0a010203)) := by
  constructor
  · decide +kernel
  · intro h
    have hitem : Item "::ffff:10.0.0.0/104".toList "::ffff:10.0.0.0/104".toList :=
      mem_splitCSV_iff.mp (by decide +kernel)
    have hdenotes : Denotes "::ffff:10.0.0.0/104".toList (.v4 0x0a010203) := by
      refine .block (p := .v6 0xffff0a000000 104) (by decide +kernel) (by decide +kernel) ?_
      exact ⟨⟨by decide +kernel, by decide +kernel⟩, by decide +kernel⟩
    exact absurd (h.mpr ⟨_, hitem, hdenotes⟩) (by decide +kernel)

end LotterySystem.Config
