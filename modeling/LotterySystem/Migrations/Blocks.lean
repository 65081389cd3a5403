import LotterySystem.Migrations.Catalog
import LotterySystem.Migrations.Rollout

/-!
# Schema files that can be repeated

A schema file is cut into blocks. A block can be repeated, and a later block that
is compatible with it does not undo it. So files of pairwise compatible blocks
are absorbed, and replicas of several releases can execute them in any
interleaving. The two files of the repository are such files. A file that
creates a table after the privileges of the application were set for all tables
would not be: the privileges on the new table would be lost when the earlier file
is executed again.
-/

namespace LotterySystem.Migrations

open Interleaving Replay
open Store (Table)

/-! ## Blocks -/

/-- A part of a file that can be repeated. -/
inductive Block
  | extension
  | table (T : Table)
  | ledger
  | index (i : Index) (T : Table)
  | function (name : FunctionName) (body : FunctionBody)
  | triggers (ds : List TriggerDef) (nodup : (ds.map (·.key)).Nodup)
  | privileges (g : Grantee) (ch : PrivilegeChange)
  | ifRole (g : Grantee) (chs : List PrivilegeChange)

/-- Triggers are dropped and created again. -/
def Block.statements : Block → List Ddl
  | .extension => [.createExtension]
  | .table T => [.createTable T]
  | .ledger => [.createLedger]
  | .index i T => [.createIndex i T]
  | .function name body => [.replaceFunction name body]
  | .triggers ds _ => ds.map (fun d => .dropTrigger d.name d.table) ++ ds.map .createTrigger
  | .privileges g ch => [.privileges g ch]
  | .ifRole g chs => [.ifRole g chs]

def Block.run (b : Block) : Catalog → Except SqlError Catalog := runAll Ddl.exec b.statements

/-- The triggers after those of a block have been created again. -/
def withTriggers (ds : List TriggerDef) (triggers : Table × TriggerName → Option Trigger)
    (key : Table × TriggerName) : Option Trigger :=
  ((ds.find? fun d => d.key = key).map (·.trigger)).or (triggers key)

/-- The privileges after some changes. -/
def withPrivileges (c : Catalog) (g : Grantee) (chs : List PrivilegeChange) (g' : Grantee)
    (o : Object) (p : Privilege) : Bool :=
  if g' = g then
    chs.foldl (fun old ch => if ch.covers c o p then ch.granted else old) (c.privileges g' o p)
  else c.privileges g' o p

/-- What a block needs. -/
def Block.Ready (c : Catalog) : Block → Prop
  | .extension | .ledger | .function _ _ => True
  | .table T => c.tables T = true ∨ (references T).all c.tables = true
  | .index _ T => c.tables T = true
  | .triggers ds _ => ∀ d ∈ ds, c.tables d.table = true ∧ c.functions d.trigger.function ≠ none
  | .privileges g ch => c.hasRole g = true ∧ ch.objects.found c = true
  | .ifRole g chs => c.hasRole g = true → ∀ ch ∈ chs, ch.objects.found c = true

/-- What a block leaves. -/
def Block.result (c : Catalog) : Block → Catalog
  | .extension => { c with pgcrypto := true }
  | .table T => { c with tables := Function.update c.tables T true }
  | .ledger => c
  | .index i _ => { c with indexes := Function.update c.indexes i true }
  | .function name body => { c with functions := Function.update c.functions name (some body) }
  | .triggers ds _ => { c with triggers := withTriggers ds c.triggers }
  | .privileges g ch => { c with privileges := withPrivileges c g [ch] }
  | .ifRole g chs => if c.hasRole g then { c with privileges := withPrivileges c g chs } else c

section Blocks

variable {c c' : Catalog} {g : Grantee}

theorem ok_eq_iff {ε α : Type} {P : Prop} {x y : α} (h : P) :
    (Except.ok x : Except ε α) = .ok y ↔ P ∧ y = x := by
  rw [Except.ok.injEq, eq_comm]
  exact (and_iff_right h).symm

theorem PrivilegeChange.exec_ok_iff {ch : PrivilegeChange} :
    ch.exec g c = .ok c' ↔ (c.hasRole g = true ∧ ch.objects.found c = true) ∧
      c' = { c with privileges := withPrivileges c g [ch] } := by
  have hprivileges : (fun g' o p =>
      if g' = g ∧ ch.covers c o p = true then ch.granted else c.privileges g' o p) =
        withPrivileges c g [ch] := by
    funext g' o p
    rw [withPrivileges, List.foldl_cons, List.foldl_nil, ite_and]
  rw [PrivilegeChange.exec, hprivileges]
  split_ifs with hrole hfound
  · simp [hrole]
  · simp [hfound]
  · exact ok_eq_iff ⟨by simpa using hrole, by simpa using hfound⟩

/-- Changes of privileges do not change what exists. -/
theorem found_privileges (os : Objects) (priv : Grantee → Object → Privilege → Bool) :
    os.found { c with privileges := priv } = os.found c := by
  cases os with
  | named os => rfl
  | allTables | allSequences => rfl

theorem covers_privileges (ch : PrivilegeChange) (priv : Grantee → Object → Privilege → Bool) :
    ch.covers { c with privileges := priv } = ch.covers c := by
  funext o p
  rw [PrivilegeChange.covers, PrivilegeChange.covers]
  cases ch.objects <;> rfl

theorem withPrivileges_cons (ch : PrivilegeChange) (chs : List PrivilegeChange) :
    withPrivileges { c with privileges := withPrivileges c g [ch] } g chs =
      withPrivileges c g (ch :: chs) := by
  funext g' o p
  simp only [withPrivileges, covers_privileges, List.foldl_cons, List.foldl_nil]
  split_ifs <;> rfl

theorem runAll_privileges_iff {chs : List PrivilegeChange} (hrole : c.hasRole g = true) :
    runAll (PrivilegeChange.exec g) chs c = .ok c' ↔
      (∀ ch ∈ chs, ch.objects.found c = true) ∧
        c' = { c with privileges := withPrivileges c g chs } := by
  induction chs generalizing c with
  | nil =>
      have hnone : withPrivileges c g [] = c.privileges := by
        funext g' o p
        simp [withPrivileges]
      rw [runAll_nil, hnone, Except.ok.injEq, eq_comm]
      simp
  | cons ch chs ih =>
      rw [runAll_cons_iff, List.forall_mem_cons]
      have hrest :=
        @ih { c with privileges := withPrivileges c g [ch] } (by cases g <;> exact hrole)
      simp only [found_privileges, withPrivileges_cons] at hrest
      constructor
      · rintro ⟨c₁, hch, hchs⟩
        obtain ⟨⟨_, hfound⟩, rfl⟩ := PrivilegeChange.exec_ok_iff.mp hch
        exact ⟨⟨hfound, (hrest.mp hchs).1⟩, (hrest.mp hchs).2⟩
      · rintro ⟨⟨hfound, hfounds⟩, rfl⟩
        exact ⟨_, PrivilegeChange.exec_ok_iff.mpr ⟨⟨hrole, hfound⟩, rfl⟩, hrest.mpr ⟨hfounds, rfl⟩⟩

theorem runAll_dropTriggers (ds : List TriggerDef) (c : Catalog) :
    runAll Ddl.exec (ds.map fun d => .dropTrigger d.name d.table) c =
      .ok { c with triggers := fun key =>
        if key ∈ ds.map (·.key) then none else c.triggers key } := by
  induction ds generalizing c with
  | nil => simp
  | cons d ds ih =>
      rw [List.map_cons, runAll_cons_iff]
      refine ⟨_, rfl, (ih _).trans (congrArg Except.ok ?_)⟩
      congr 1
      funext key
      by_cases hkey : key = d.key
      · subst hkey
        simp [TriggerDef.key]
      · have hne : key ≠ (d.table, d.name) := hkey
        simp [Function.update_of_ne hne, hkey]

theorem exec_createTrigger_iff {d : TriggerDef} (hnone : c.triggers d.key = none) :
    Ddl.exec (.createTrigger d) c = .ok c' ↔
      (c.tables d.table = true ∧ c.functions d.trigger.function ≠ none) ∧
        c' = { c with triggers := Function.update c.triggers d.key (some d.trigger) } := by
  rw [Ddl.exec, hnone]
  split_ifs with htable hfunction
  · simp [htable]
  · simp [hfunction]
  · simp_all
  · exact ok_eq_iff ⟨by simpa using htable, hfunction⟩

theorem withTriggers_cons {d : TriggerDef} {ds : List TriggerDef} (hd : d.key ∉ ds.map (·.key))
    (triggers : Table × TriggerName → Option Trigger) :
    withTriggers ds (Function.update triggers d.key (some d.trigger)) =
      withTriggers (d :: ds) triggers := by
  funext key
  by_cases hkey : d.key = key
  · subst hkey
    have hfind : ds.find? (fun e => e.key = d.key) = none := by
      rw [List.find?_eq_none]
      intro e he heq
      exact hd (List.mem_map.mpr ⟨e, he, by simpa using heq⟩)
    simp [withTriggers, hfind]
  · simp [withTriggers, hkey, Function.update_of_ne (Ne.symm hkey)]

theorem runAll_createTriggers_iff {ds : List TriggerDef} (hnodup : (ds.map (·.key)).Nodup)
    (hnone : ∀ d ∈ ds, c.triggers d.key = none) :
    runAll Ddl.exec (ds.map .createTrigger) c = .ok c' ↔
      (∀ d ∈ ds, c.tables d.table = true ∧ c.functions d.trigger.function ≠ none) ∧
        c' = { c with triggers := withTriggers ds c.triggers } := by
  induction ds generalizing c with
  | nil =>
      have hsame : withTriggers [] c.triggers = c.triggers := rfl
      rw [List.map_nil, runAll_nil, hsame, Except.ok.injEq, eq_comm]
      simp
  | cons d ds ih =>
      rw [List.map_cons, List.nodup_cons] at hnodup
      rw [List.forall_mem_cons] at hnone ⊢
      have hrest := @ih { c with triggers := Function.update c.triggers d.key (some d.trigger) }
        hnodup.2 fun e he => by
          have hne : e.key ≠ d.key := fun heq => hnodup.1 (heq ▸ List.mem_map_of_mem he)
          exact (Function.update_of_ne hne _ _).trans (hnone.2 e he)
      simp only [withTriggers_cons hnodup.1] at hrest
      rw [List.map_cons, runAll_cons_iff]
      constructor
      · rintro ⟨c₁, hd, hds⟩
        obtain ⟨hready, rfl⟩ := (exec_createTrigger_iff hnone.1).mp hd
        exact ⟨⟨hready, (hrest.mp hds).1⟩, (hrest.mp hds).2⟩
      · rintro ⟨⟨hready, hreadys⟩, rfl⟩
        exact ⟨_, (exec_createTrigger_iff hnone.1).mpr ⟨hready, rfl⟩, hrest.mpr ⟨hreadys, rfl⟩⟩

theorem find?_key {ds : List TriggerDef} (hnodup : (ds.map (·.key)).Nodup) {d : TriggerDef}
    (hd : d ∈ ds) : ds.find? (fun e => e.key = d.key) = some d := by
  have hfind : (ds.find? fun e => e.key = d.key).isSome = true :=
    List.find?_isSome.mpr ⟨d, hd, decide_eq_true rfl⟩
  obtain ⟨e, he⟩ := Option.isSome_iff_exists.mp hfind
  have hkey : e.key = d.key := by simpa using List.find?_some he
  rw [he, List.inj_on_of_nodup_map hnodup (List.mem_of_find?_eq_some he) hd hkey]

/-- Triggers that are dropped first are created again. -/
theorem runAll_triggers_iff {ds : List TriggerDef} (hnodup : (ds.map (·.key)).Nodup) :
    (Block.triggers ds hnodup).run c = .ok c' ↔
      (Block.triggers ds hnodup).Ready c ∧ c' = (Block.triggers ds hnodup).result c := by
  have hsame : withTriggers ds (fun key => if key ∈ ds.map (·.key) then none else c.triggers key) =
      withTriggers ds c.triggers := by
    funext key
    by_cases hmem : key ∈ ds.map (·.key)
    · obtain ⟨d, hd, rfl⟩ := List.mem_map.mp hmem
      rw [withTriggers, withTriggers, find?_key hnodup hd]
      rfl
    · simp only [withTriggers, if_neg hmem]
  rw [Block.run, Block.statements, runAll_append_iff]
  simp only [runAll_dropTriggers, Except.ok.injEq, exists_eq_left']
  rw [runAll_createTriggers_iff hnodup fun d hd => if_pos (List.mem_map_of_mem hd), hsame]
  rfl

theorem runAll_singleton {s : Ddl} : runAll Ddl.exec [s] c = s.exec c := by
  rw [runAll]
  cases s.exec c <;> rfl

/-- A block runs if it finds what it needs. -/
theorem Block.run_ok_iff {b : Block} : b.run c = .ok c' ↔ b.Ready c ∧ c' = b.result c := by
  cases b with
  | triggers ds hnodup => exact runAll_triggers_iff hnodup
  | extension | ledger | function name body =>
      rw [Block.run, Block.statements, runAll_singleton]
      exact ok_eq_iff trivial
  | table T =>
      rw [Block.run, Block.statements, runAll_singleton, Ddl.exec, Block.Ready, Block.result]
      split_ifs with htable hrefs
      · have hsame : Function.update c.tables T true = c.tables :=
          Function.update_eq_self_iff.mpr htable.symm
        rw [hsame]
        exact ok_eq_iff (Or.inl htable)
      · exact ok_eq_iff (Or.inr hrefs)
      · simp_all
  | index i T =>
      rw [Block.run, Block.statements, runAll_singleton, Ddl.exec, Block.Ready, Block.result]
      split_ifs with htable
      · simp [htable]
      · exact ok_eq_iff (by simpa using htable)
  | privileges g ch =>
      rw [Block.run, Block.statements, runAll_singleton, Ddl.exec]
      exact PrivilegeChange.exec_ok_iff
  | ifRole g chs =>
      rw [Block.run, Block.statements, runAll_singleton, Ddl.exec, Block.Ready, Block.result]
      split_ifs with hrole
      · rw [runAll_privileges_iff hrole]
        exact and_congr_left' (imp_iff_right hrole).symm
      · exact ok_eq_iff fun h => absurd h hrole

end Blocks

/-! ## Repeating a block -/

/-- The changes of privileges have no effect on what the grantee has. -/
def AclHolds (c : Catalog) (g : Grantee) (chs : List PrivilegeChange) : Prop :=
  ∀ o p, chs.foldl (fun old ch => if ch.covers c o p then ch.granted else old)
    (c.privileges g o p) = c.privileges g o p

/-- What a block leaves is there. -/
def Block.Holds (c : Catalog) : Block → Prop
  | .extension => c.pgcrypto = true
  | .table T => c.tables T = true
  | .ledger => True
  | .index i _ => c.indexes i = true
  | .function name body => c.functions name = some body
  | .triggers ds _ => ∀ d ∈ ds, c.triggers d.key = some d.trigger
  | .privileges g ch => AclHolds c g [ch]
  | .ifRole g chs => c.hasRole g = true → AclHolds c g chs

/-- The changes name the objects they are about. -/
def Objects.isNamed : Objects → Bool
  | .named _ => true
  | .allTables | .allSequences => false

namespace Block

/-- The functions that a block defines. -/
def functions : Block → List (FunctionName × FunctionBody)
  | .function name body => [(name, body)]
  | _ => []

/-- The triggers that a block creates. -/
def triggerDefs : Block → List TriggerDef
  | .triggers ds _ => ds
  | _ => []

/-- The privileges that a block changes, and whose they are. -/
def acl : Block → List (Grantee × List PrivilegeChange)
  | .privileges g ch => [(g, [ch])]
  | .ifRole g chs => [(g, chs)]
  | _ => []

def createsTable : Block → Bool
  | .table _ => true
  | _ => false

/-- The block `later` does not undo `earlier`. Privileges that were changed on all tables must not
be followed by a new table. -/
structure Compatible (earlier later : Block) : Prop where
  functions : ∀ f ∈ earlier.functions, ∀ f' ∈ later.functions, f'.1 = f.1 → f'.2 = f.2
  triggers : ∀ d ∈ earlier.triggerDefs, ∀ d' ∈ later.triggerDefs, d'.key = d.key →
    d'.trigger = d.trigger
  grantees : ∀ a ∈ earlier.acl, ∀ a' ∈ later.acl, a'.1 ≠ a.1
  tables : ∀ a ∈ earlier.acl, later.createsTable = true → ∀ ch ∈ a.2, ch.objects.isNamed = true

instance (earlier later : Block) : Decidable (Compatible earlier later) :=
  decidable_of_iff
    ((∀ f ∈ earlier.functions, ∀ f' ∈ later.functions, f'.1 = f.1 → f'.2 = f.2) ∧
      (∀ d ∈ earlier.triggerDefs, ∀ d' ∈ later.triggerDefs, d'.key = d.key →
        d'.trigger = d.trigger) ∧
      (∀ a ∈ earlier.acl, ∀ a' ∈ later.acl, a'.1 ≠ a.1) ∧
      ∀ a ∈ earlier.acl, later.createsTable = true → ∀ ch ∈ a.2, ch.objects.isNamed = true)
    ⟨fun h => ⟨h.1, h.2.1, h.2.2.1, h.2.2.2⟩,
      fun h => ⟨h.functions, h.triggers, h.grantees, h.tables⟩⟩

end Block

/-- A catalogue in which everything still exists. -/
structure Grown (c c' : Catalog) : Prop where
  pgcrypto : c.pgcrypto = true → c'.pgcrypto = true
  tables : ∀ T, c.tables T = true → c'.tables T = true
  indexes : ∀ i, c.indexes i = true → c'.indexes i = true
  functions : ∀ name, c.functions name ≠ none → c'.functions name ≠ none
  appRole : c'.appRole = c.appRole

section Repeating

variable {c c' : Catalog} {b b' : Block} {g : Grantee} {chs : List PrivilegeChange}

theorem Grown.refl (c : Catalog) : Grown c c :=
  ⟨id, fun _ => id, fun _ => id, fun _ => id, rfl⟩

theorem update_true {α : Type} [DecidableEq α] {f : α → Bool} (x y : α) (h : f y = true) :
    Function.update f x true y = true := by
  by_cases hxy : y = x
  · rw [hxy, Function.update_self]
  · rw [Function.update_of_ne hxy, h]

theorem Block.result_ifRole (g : Grantee) (chs : List PrivilegeChange) (c : Catalog) :
    (Block.ifRole g chs).result c =
      { c with privileges := if c.hasRole g then withPrivileges c g chs else c.privileges } := by
  rw [Block.result]
  split_ifs <;> rfl

theorem Block.grown_result (b : Block) (c : Catalog) : Grown c (b.result c) := by
  cases b with
  | extension => exact { Grown.refl c with pgcrypto := fun _ => rfl }
  | table T => exact { Grown.refl c with tables := fun U h => update_true T U h }
  | index i T => exact { Grown.refl c with indexes := fun j h => update_true i j h }
  | function name body =>
      refine { Grown.refl c with functions := fun name' h => ?_ }
      rw [Block.result]
      by_cases hname : name' = name
      · simp [hname]
      · simpa [Function.update_of_ne hname] using h
  | ledger => exact .refl c
  | triggers ds _ | privileges g ch => exact { Grown.refl c with }
  | ifRole g chs =>
      rw [Block.result_ifRole]
      exact { Grown.refl c with }

theorem Grown.hasRole (h : Grown c c') (g : Grantee) : c'.hasRole g = c.hasRole g := by
  cases g with
  | everyone => rfl
  | lotteryApp => exact h.appRole

theorem Grown.found (h : Grown c c') {os : Objects} (hfound : os.found c = true) :
    os.found c' = true := by
  cases os with
  | allTables | allSequences => rfl
  | named os =>
      rw [Objects.found, List.all_eq_true] at hfound ⊢
      intro o ho
      have hobject := hfound o ho
      cases o with
      | ledger | schema => rfl
      | table T => exact h.tables T hobject
      | sequence T =>
          rw [Catalog.hasObject, Bool.and_eq_true] at hobject ⊢
          exact ⟨h.tables T hobject.1, hobject.2⟩

/-- What a block needs does not get lost. -/
theorem Grown.ready (h : Grown c c') (hready : b.Ready c) : b.Ready c' := by
  cases b with
  | extension | ledger | function _ _ => trivial
  | table T =>
      refine hready.imp (h.tables T) fun hrefs => ?_
      rw [List.all_eq_true] at hrefs ⊢
      exact fun U hU => h.tables U (hrefs U hU)
  | index _ T => exact h.tables T hready
  | triggers ds _ =>
      exact fun d hd => ⟨h.tables _ (hready d hd).1, h.functions _ (hready d hd).2⟩
  | privileges g ch => exact ⟨(h.hasRole g).trans hready.1, h.found hready.2⟩
  | ifRole g chs =>
      intro hrole ch hch
      exact h.found (hready ((h.hasRole g).symm.trans hrole) ch hch)

/-- Overwriting is the identity or constant, so it can be repeated. -/
theorem foldl_overwrite {α β : Type} (covers : α → Bool) (value : α → β) (l : List α) :
    (∀ x, l.foldl (fun old a => if covers a then value a else old) x = x) ∨
      ∃ v, ∀ x, l.foldl (fun old a => if covers a then value a else old) x = v := by
  induction l with
  | nil => exact Or.inl fun _ => rfl
  | cons a l ih =>
      simp only [List.foldl_cons]
      rcases ih with hid | ⟨v, hconst⟩
      · by_cases ha : covers a = true
        · exact Or.inr ⟨value a, fun x => by rw [if_pos ha, hid]⟩
        · exact Or.inl fun x => by rw [if_neg ha, hid]
      · exact Or.inr ⟨v, fun x => hconst _⟩

theorem aclHolds_withPrivileges (c : Catalog) (g : Grantee) (chs : List PrivilegeChange) :
    AclHolds { c with privileges := withPrivileges c g chs } g chs := by
  intro o p
  simp only [covers_privileges, withPrivileges, if_pos]
  rcases foldl_overwrite (fun ch : PrivilegeChange => ch.covers c o p) (·.granted) chs with
    hid | ⟨v, hconst⟩
  · rw [hid, hid]
  · rw [hconst, hconst]

theorem AclHolds.withPrivileges_eq (h : AclHolds c g chs) :
    withPrivileges c g chs = c.privileges := by
  funext g' o p
  rw [withPrivileges]
  split_ifs with hg
  · rw [hg]
    exact h o p
  · rfl

theorem AclHolds.congr (h : AclHolds c g chs) (hprivileges : c'.privileges g = c.privileges g)
    (hcovers : ∀ ch ∈ chs, ch.covers c' = ch.covers c) : AclHolds c' g chs := by
  intro o p
  rw [hprivileges]
  refine (List.foldl_ext _ _ _ ?_).trans (h o p)
  intro old ch hch
  rw [hcovers ch hch]

/-- A block has no effect if what it leaves is there. -/
theorem Block.Holds.result_eq (h : b.Holds c) : b.result c = c := by
  cases b with
  | extension =>
      have hinstalled : c.pgcrypto = true := h
      rw [Block.result, ← hinstalled]
  | table T =>
      rw [Block.result, Function.update_eq_self_iff.mpr h.symm]
  | ledger => rfl
  | index i T =>
      rw [Block.result, Function.update_eq_self_iff.mpr h.symm]
  | function name body =>
      rw [Block.result, Function.update_eq_self_iff.mpr h.symm]
  | triggers ds hnodup =>
      have hsame : withTriggers ds c.triggers = c.triggers := by
        funext key
        rw [withTriggers]
        cases hfind : ds.find? fun d => d.key = key with
        | none => rfl
        | some d =>
            have hkey : d.key = key := by simpa using List.find?_some hfind
            rw [← hkey, h d (List.mem_of_find?_eq_some hfind)]
            rfl
      rw [Block.result, hsame]
  | privileges g ch => rw [Block.result, h.withPrivileges_eq]
  | ifRole g chs =>
      rw [Block.result]
      split_ifs with hrole
      · rw [(h hrole).withPrivileges_eq]
      · rfl

/-- A block leaves what it is for. -/
theorem Block.holds_result (b : Block) (c : Catalog) : b.Holds (b.result c) := by
  cases b with
  | extension => rfl
  | table T => exact Function.update_self ..
  | ledger => trivial
  | index i T => exact Function.update_self ..
  | function name body => exact Function.update_self ..
  | triggers ds hnodup =>
      intro d hd
      change withTriggers ds c.triggers d.key = some d.trigger
      rw [withTriggers, find?_key hnodup hd]
      rfl
  | privileges g ch => exact aclHolds_withPrivileges c g [ch]
  | ifRole g chs =>
      intro hrole
      have hbefore : c.hasRole g = true :=
        ((Block.grown_result (.ifRole g chs) c).hasRole g).symm.trans hrole
      rw [Block.result, if_pos hbefore]
      exact aclHolds_withPrivileges c g chs

theorem covers_of_tables (h : c'.tables = c.tables) (ch : PrivilegeChange) :
    ch.covers c' = ch.covers c := by
  funext o p
  rw [PrivilegeChange.covers, PrivilegeChange.covers]
  cases ch.objects <;> simp only [Objects.covers, h]

theorem covers_of_isNamed {ch : PrivilegeChange} (h : ch.objects.isNamed = true) :
    ch.covers c' = ch.covers c := by
  funext o p
  rw [PrivilegeChange.covers, PrivilegeChange.covers]
  cases hos : ch.objects with
  | named os => rfl
  | allTables | allSequences =>
      rw [hos] at h
      cases h

theorem withPrivileges_of_ne {g' : Grantee} (h : g ≠ g') :
    withPrivileges c g' chs g = c.privileges g := by
  funext o p
  rw [withPrivileges, if_neg h]

/-- The privileges of a grantee are touched by the changes for this grantee only. -/
theorem AclHolds.result (h : AclHolds c g chs) (hgrantees : ∀ a ∈ b'.acl, a.1 ≠ g)
    (htables : b'.createsTable = true → ∀ ch ∈ chs, ch.objects.isNamed = true) :
    AclHolds (b'.result c) g chs := by
  cases b' with
  | extension | ledger | index _ _ | function _ _ | triggers _ _ =>
      exact h.congr rfl fun ch _ => covers_of_tables rfl ch
  | table T => exact h.congr rfl fun ch hch => covers_of_isNamed (htables rfl ch hch)
  | privileges g' ch =>
      have hne : g' ≠ g := hgrantees _ List.mem_cons_self
      exact h.congr (withPrivileges_of_ne hne.symm) fun ch _ => covers_of_tables rfl ch
  | ifRole g' chs' =>
      have hne : g' ≠ g := hgrantees _ List.mem_cons_self
      rw [Block.result]
      split_ifs
      · exact h.congr (withPrivileges_of_ne hne.symm) fun ch _ => covers_of_tables rfl ch
      · exact h

theorem functions_result {name : FunctionName} {body : FunctionBody}
    (h : c.functions name = some body)
    (hsame : ∀ f ∈ b'.functions, f.1 = name → f.2 = body) :
    (b'.result c).functions name = some body := by
  cases b' with
  | function name' body' =>
      by_cases hname : name' = name
      · subst hname
        have hbody : body' = body := hsame _ List.mem_cons_self rfl
        rw [← hbody]
        exact Function.update_self ..
      · exact (Function.update_of_ne (Ne.symm hname) ..).trans h
  | ifRole g chs =>
      rw [Block.result_ifRole]
      exact h
  | extension | ledger | index _ _ | table _ | triggers _ _ | privileges _ _ => exact h

theorem triggers_result {d : TriggerDef} (h : c.triggers d.key = some d.trigger)
    (hsame : ∀ d' ∈ b'.triggerDefs, d'.key = d.key → d'.trigger = d.trigger) :
    (b'.result c).triggers d.key = some d.trigger := by
  cases b' with
  | triggers ds hnodup =>
      change withTriggers ds c.triggers d.key = some d.trigger
      rw [withTriggers]
      cases hfind : ds.find? fun e => e.key = d.key with
      | none => exact h
      | some e =>
          have hkey : e.key = d.key := by simpa using List.find?_some hfind
          exact congrArg some (hsame e (List.mem_of_find?_eq_some hfind) hkey)
  | ifRole g chs =>
      rw [Block.result_ifRole]
      exact h
  | extension | ledger | index _ _ | table _ | function _ _ | privileges _ _ => exact h

/-- A compatible block does not undo another one. -/
theorem Block.Holds.result (h : b.Holds c) (hcompat : b.Compatible b') : b.Holds (b'.result c) := by
  have hgrown := b'.grown_result c
  cases b with
  | extension => exact hgrown.pgcrypto h
  | table T => exact hgrown.tables T h
  | ledger => trivial
  | index i T => exact hgrown.indexes i h
  | function name body => exact functions_result h (hcompat.functions _ List.mem_cons_self)
  | triggers ds hnodup => exact fun d hd => triggers_result (h d hd) (hcompat.triggers d hd)
  | privileges g ch =>
      exact AclHolds.result h (hcompat.grantees _ List.mem_cons_self)
        (hcompat.tables _ List.mem_cons_self)
  | ifRole g chs =>
      intro hrole
      exact AclHolds.result (h ((hgrown.hasRole g).symm.trans hrole))
        (hcompat.grantees _ List.mem_cons_self) (hcompat.tables _ List.mem_cons_self)

theorem Block.settled_of_holds (hready : b.Ready c) (h : b.Holds c) : Settled Block.run b c :=
  Block.run_ok_iff.mpr ⟨hready, h.result_eq.symm⟩

theorem Block.holds_of_settled (h : Settled Block.run b c) : b.Ready c ∧ b.Holds c := by
  obtain ⟨hready, hresult⟩ := Block.run_ok_iff.mp h
  refine ⟨hready, ?_⟩
  rw [hresult]
  exact b.holds_result c

theorem Block.settling (b : Block) : Settling Block.run b := by
  intro c c' hrun
  obtain ⟨hready, rfl⟩ := Block.run_ok_iff.mp hrun
  exact settled_of_holds ((b.grown_result c).ready hready) (b.holds_result c)

theorem Block.Compatible.respects (h : b.Compatible b') : Respects Block.run b b' := by
  intro c c' hrun hsettled
  obtain ⟨_, rfl⟩ := Block.run_ok_iff.mp hrun
  obtain ⟨hready, hholds⟩ := Block.holds_of_settled hsettled
  exact settled_of_holds ((b'.grown_result c).ready hready) (hholds.result h)

end Repeating

/-! ## Files -/

/-- A file, and how it is cut into blocks; `records` is the name under which it inserts its own
version into the ledger. -/
structure Script where
  statements : List Ddl
  records : Option (List Char)
  blocks : List Block
  statements_eq : statements = blocks.flatMap Block.statements

def Script.run (f : Script) : Catalog → Except SqlError Catalog := runAll Ddl.exec f.statements

/-- The plan of a list of migrations with these files. -/
def schemaPlan (ms : List Migration) (nodup : (ms.map (·.version)).Nodup)
    (script : Migration → Script) : Plan Catalog where
  migrations := ms
  nodup := nodup
  script m := (script m).run
  records m := (script m).records

/-- No block undoes an earlier one, of its own file or of an earlier one. -/
def CompatibleFiles (ms : List Migration) (script : Migration → Script) : Prop :=
  (ms.flatMap fun m => (script m).blocks).Pairwise Block.Compatible

theorem Script.run_eq (f : Script) : f.run = runAll Block.run f.blocks := by
  funext c
  rw [Script.run, f.statements_eq]
  exact runAll_flatMap Block.statements f.blocks c

/-- Compatible files are absorbed, from every catalogue. -/
theorem absorbing_of_compatible {ms : List Migration} (nodup : (ms.map (·.version)).Nodup)
    {script : Migration → Script} (h : CompatibleFiles ms script) (c : Catalog) :
    (schemaPlan ms nodup script).Absorbing c := by
  intro k c' hrun m hm
  have hblocks : runAll Block.run ((ms.take k).flatMap fun m => (script m).blocks) c = .ok c' := by
    rw [runAll_flatMap]
    simpa only [Plan.after, schemaPlan, Script.run_eq] using hrun
  have hpairwise : ((ms.take k).flatMap fun m => (script m).blocks).Pairwise Block.Compatible := by
    rw [CompatibleFiles, ← List.take_append_drop k ms, List.flatMap_append] at h
    exact (List.pairwise_append.mp h).1
  change (script m).run c' = .ok c'
  rw [Script.run_eq]
  refine runAll_absorbed (fun b _ => b.settling) (hpairwise.imp fun h => h.respects) hblocks ?_
  exact fun b hb => List.mem_flatMap.mpr ⟨m, hm, hb⟩

/-! ## The files of the repository -/

def initScript : Script where
  statements := initStatements
  records := some "init".toList
  blocks :=
    [.extension,
      .table .users,
      .index .usersEmail .users,
      .table .events,
      .index .eventsStatus .events,
      .index .eventsDrawAt .events,
      .table .bookings,
      .index .bookingsEventID .bookings,
      .index .bookingsUserID .bookings,
      .table .draws,
      .index .drawsEventID .draws,
      .privileges .everyone ⟨false, some [.update, .delete], .named [.table .draws]⟩,
      .function .setUpdatedAt .setUpdatedAt,
      .triggers [usersUpdatedAt, eventsUpdatedAt] (by decide),
      .ledger]
  statements_eq := rfl

def hardenAuditScript : Script where
  statements := hardenAuditStatements
  records := none
  blocks :=
    [.function .forbidAuditMutation .forbidAuditMutation,
      .triggers [lotteryDrawsAppendOnly] (by decide),
      .triggers [lotteryDrawsNoTruncate] (by decide),
      .table .seals,
      .triggers [lotteryDrawSealsAppendOnly] (by decide),
      .triggers [lotteryDrawSealsNoTruncate] (by decide),
      .function .forbidDrawnEventChange .forbidDrawnEventChange,
      .triggers [eventsDrawnIsFinal] (by decide),
      .ifRole .lotteryApp appPrivileges]
  statements_eq := rfl

def initMigration : Migration :=
  ⟨1, "init".toList, "migrations/001_init.sql".toList⟩

def hardenAuditMigration : Migration :=
  ⟨2, "harden_audit".toList, "migrations/002_harden_audit.sql".toList⟩

def embeddedMigrations : List Migration := [initMigration, hardenAuditMigration]

def embeddedScript (m : Migration) : Script :=
  if m.version = 1 then initScript else hardenAuditScript

instance (ms : List Migration) (script : Migration → Script) :
    Decidable (CompatibleFiles ms script) :=
  inferInstanceAs (Decidable (List.Pairwise _ _))

theorem compatibleFiles_embedded : CompatibleFiles embeddedMigrations embeddedScript := by
  decide +kernel

/-- Replicas of several releases run `RunMigrations` at the same time, in any interleaving and with
any failures, on a database on which no migration is recorded yet. If the files are compatible, the
catalogue is always what the statements of the first `k` files leave, executed once and in their
order, where these `k` are the recorded ones; and the files of a replica that has returned without
an error are among them. -/
theorem rollout_installs_in_order {ms : List Migration} (nodup : (ms.map (·.version)).Nodup)
    (script : Migration → Script) (hcompat : CompatibleFiles ms script) {sorter : Sorter}
    (fleet : Fleet (schemaPlan ms nodup script) sorter) {db : Database Catalog}
    (hnew : ∀ v, ¬ db.Recorded v) {c : ReplicaConfig Catalog}
    (h : Steps fleet.program (startUp db) c) :
    ∃ k,
      runAll Ddl.exec ((ms.take k).flatMap fun m => (script m).statements) db.schema =
        .ok c.state.db.schema ∧
      (∀ v, c.state.db.Recorded v ↔ v ∈ (ms.take k).map (·.version)) ∧
      ∀ t, c.proc t = .finished (.ok ()) → (ms.take (fleet.size t)).length ≤ k := by
  obtain ⟨k, hk, hfinished⟩ :=
    installed_of_steps fleet (absorbing_of_compatible nodup hcompat db.schema) hnew h
  refine ⟨k, ?_, hk.recorded, hfinished⟩
  rw [runAll_flatMap]
  exact hk.schema

/-! ## The embedded folder -/

theorem nodup_embeddedMigrations : (embeddedMigrations.map (·.version)).Nodup := by decide

def embeddedPlan : Plan Catalog :=
  schemaPlan embeddedMigrations nodup_embeddedMigrations embeddedScript

/-- The folder with both files. -/
def embeddedDir : Dir Catalog where
  entries :=
    [⟨"001_init.sql".toList, false, embeddedPlan.body initMigration⟩,
      ⟨"002_harden_audit.sql".toList, false, embeddedPlan.body hardenAuditMigration⟩]
  nodup := by decide

/-- The folder of the release before the second file was added. -/
def initialDir : Dir Catalog where
  entries := [⟨"001_init.sql".toList, false, embeddedPlan.body initMigration⟩]
  nodup := by decide

theorem isRelease_embeddedDir : embeddedPlan.IsRelease insertionSorter embeddedDir 2 where
  found := ⟨embeddedMigrations, rfl, by decide⟩
  bodies m hm := by
    rcases List.mem_cons.mp hm with rfl | hm
    · rfl
    · rw [List.mem_singleton.mp hm]
      rfl

theorem isRelease_initialDir : embeddedPlan.IsRelease insertionSorter initialDir 1 where
  found := ⟨[initMigration], rfl, by decide⟩
  bodies m hm := by
    rw [List.mem_singleton.mp hm]
    rfl

/-- The database before the first start, in which the role `lottery_app` may have been created. -/
def newDatabase (appRole : Bool) : Database Catalog := ⟨.fresh appRole, none⟩

theorem not_recorded_newDatabase (appRole : Bool) (v : Int) :
    ¬ (newDatabase appRole).Recorded v := by
  rintro ⟨l, hl, _⟩
  cases hl

/-- Replica 0 is still of the first release. -/
def embeddedFleet : Fleet embeddedPlan insertionSorter where
  dir t := if t = 0 then initialDir else embeddedDir
  size t := if t = 0 then 1 else 2
  isRelease t := by
    split_ifs
    · exact isRelease_initialDir
    · exact isRelease_embeddedDir

/-- Both replicas find nothing recorded; the old one commits the first file, and then the new one
executes it again and goes on with the second file. -/
def rolloutActs : List (Act (machine Catalog)) :=
  [.start 0, .start 1, .call 0 .normal, .call 1 .normal, .call 0 .normal, .call 1 .normal,
    .call 0 .normal, .call 0 .normal, .call 0 .normal, .call 0 .normal,
    .call 1 .normal, .call 1 .normal, .call 1 .normal, .call 1 .normal,
    .call 1 .normal, .call 1 .normal, .call 1 .normal, .call 1 .normal, .call 1 .normal]

theorem rolloutActs_possible :
    (runActs embeddedFleet.program (startUp (newDatabase true)) rolloutActs).isSome = true := by
  decide +kernel

/-- The first file has been executed twice, and the catalogue is what both files leave when each
is executed once. -/
theorem rollout_installs_in_order_rerun : ∃ c : ReplicaConfig Catalog,
    Steps embeddedFleet.program (startUp (newDatabase true)) c ∧
      c.proc 0 = .finished (.ok ()) ∧ c.proc 1 = .finished (.ok ()) ∧
      c.state.executed = [1, 1, 2] ∧
      runAll Ddl.exec (initStatements ++ hardenAuditStatements) (.fresh true) =
        .ok c.state.db.schema := by
  have hsteps := steps_of_isSome rolloutActs_possible
  obtain ⟨k, hschema, _, hfinished⟩ :=
    rollout_installs_in_order nodup_embeddedMigrations embeddedScript compatibleFiles_embedded
      embeddedFleet (not_recorded_newDatabase true) hsteps
  have hk : embeddedMigrations.take k = embeddedMigrations :=
    List.take_of_length_le (hfinished 1 rfl)
  rw [hk] at hschema
  exact ⟨_, hsteps, rfl, rfl, by decide +kernel, hschema⟩

end LotterySystem.Migrations
