import LotterySystem.Serialization.Statements

/-!
# Calls outside a transaction

Reads and insertions that commit by themselves, and the calls that do not
reach the database. The only one that changes the rows of an event is the
insertion of a new event.
-/

namespace LotterySystem.Serialization

open Store Events Lottery Interleaving Text

variable {req : Nat → Request} {t : Nat} {s s' : Server}

/-- The call leaves everything as it is, except that it may mark a fault. -/
def Passive (t : Nat) (s s' : Server) : Prop := s' = s ∨ s' = s.markFault t

theorem Passive.spec (req : Nat → Request) {q : Call} {a : q.Answer} (h : Passive t s s')
    (hi : Inv s) (hu : Unviolated q a) : Guar req t q a s s' ∧ Inv s' := by
  rcases h with rfl | rfl
  · exact ⟨(Quiet.refl t s').guar Iff.rfl hu, hi⟩
  · have hq := quiet_markFault t s
    exact ⟨hq.guar Iff.rfl hu, hq.inv_of_lock hi rfl⟩

theorem Passive.idle (h : Passive t s s') (hidle : Idle t s) : Idle t s' := by
  rcases h with rfl | rfl
  · exact hidle
  · exact ⟨hidle.session, hidle.lock⟩

theorem Passive.holds {e : Int} {d : EventSlice} {start : Timestamp} {ws : List Write}
    (h : Passive t s s') (hh : Holds t e d start ws s) : Holds t e d start ws s' := by
  rcases h with rfl | rfl
  · exact hh
  · exact ⟨hh.session, hh.lock, hh.slice, hh.mine⟩

theorem Passive.committed (h : Passive t s s') : Committed t s' ↔ Committed t s := by
  rcases h with rfl | rfl <;> exact Iff.rfl

theorem Passive.db (h : Passive t s s') : s'.db = s.db := by
  rcases h with rfl | rfl <;> rfl

/-- A fault mark is never taken back. -/
theorem Passive.faulted (h : Passive t s s') (hf : Faulted t s) : Faulted t s' := by
  rcases h with rfl | rfl
  · exact hf
  · exact faulted_markFault s t

/-- A call that is passive in every outcome keeps the contract. -/
theorem passive_spec {q : Call} {post : q.Answer → Server → Prop} (hi : Inv s)
    (h : ∀ ch a s', Server.exec t q ch s = some (a, s') →
      Passive t s s' ∧ Unviolated q a ∧ post a s') :
    CallSpec req t q s fun a s' => Passive t s s' ∧ post a s' := by
  intro ch a s' he
  obtain ⟨hp, hu, hpost⟩ := h ch a s' he
  obtain ⟨hg, hinv⟩ := hp.spec req hi hu
  exact ⟨hg, hinv, hp, hpost⟩

/-! ## Calls that do not reach the database -/

theorem timeNow_spec (hi : Inv s) :
    CallSpec req t .timeNow s fun _ s' => Passive t s s' ∧ True := by
  refine passive_spec hi fun ch a s' he => ?_
  simp only [Server.exec] at he
  split at he
  · obtain ⟨rfl, rfl⟩ := Prod.mk.inj (Option.some.inj he)
    exact ⟨Or.inl rfl, trivial, trivial⟩
  · cases he

/-- A source that fails during the shuffle is a fault. -/
theorem cryptoRand_spec (n : Nat) (hi : Inv s) :
    CallSpec req t (.cryptoRand n) s fun rand s' =>
      Passive t s s' ∧ (rand.fails n = true → Faulted t s') := by
  refine passive_spec hi fun ch a s' he => ?_
  simp only [Server.exec] at he
  split at he
  · rename_i rand
    obtain ⟨rfl, rfl⟩ := Prod.mk.inj (Option.some.inj he)
    split
    · exact ⟨Or.inr rfl, trivial, fun _ => faulted_markFault s t⟩
    · rename_i hfails
      exact ⟨Or.inl rfl, trivial, fun h => absurd h hfails⟩
  · cases he

theorem enterGate_spec (e : Int) (hi : Inv s) :
    CallSpec req t (.enterGate e) s fun _ s' => Passive t s s' ∧ True := by
  refine passive_spec hi fun ch a s' he => ?_
  simp only [Server.exec] at he
  split at he
  all_goals
    obtain ⟨rfl, rfl⟩ := Prod.mk.inj (Option.some.inj he)
    exact ⟨Or.inl rfl, trivial, trivial⟩

theorem leaveGate_spec (e : Int) (hi : Inv s) :
    CallSpec req t (.leaveGate e) s fun _ s' => Passive t s s' ∧ True := by
  refine passive_spec hi fun ch a s' he => ?_
  obtain ⟨-, rfl⟩ := Prod.mk.inj (Option.some.inj he)
  exact ⟨Or.inl rfl, trivial, trivial⟩

theorem newToken_spec (hi : Inv s) :
    CallSpec req t .newToken s fun a s' =>
      Passive t s s' ∧ (∀ err, a = .error err → Faulted t s') := by
  refine passive_spec hi fun ch a s' he => ?_
  simp only [Server.exec] at he
  split at he
  · obtain ⟨rfl, rfl⟩ := Prod.mk.inj (Option.some.inj he)
    exact ⟨Or.inl rfl, trivial, fun err h => by cases h⟩
  · obtain ⟨rfl, rfl⟩ := Prod.mk.inj (Option.some.inj he)
    exact ⟨Or.inr rfl, trivial, fun _ _ => faulted_markFault s t⟩
  · cases he

theorem acquireRedisLock_spec (key token : String) (hi : Inv s) :
    CallSpec req t (.acquireRedisLock key token) s fun a s' =>
      Passive t s s' ∧ (a = .error .redis → Faulted t s') := by
  refine passive_spec hi fun ch a s' he => ?_
  simp only [Server.exec] at he
  split at he
  · obtain ⟨rfl, rfl⟩ := Prod.mk.inj (Option.some.inj he)
    exact ⟨Or.inl rfl, trivial, fun h => by cases h⟩
  · obtain ⟨rfl, rfl⟩ := Prod.mk.inj (Option.some.inj he)
    exact ⟨Or.inr rfl, trivial, fun _ => faulted_markFault s t⟩
  · obtain ⟨rfl, rfl⟩ := Prod.mk.inj (Option.some.inj he)
    exact ⟨Or.inl rfl, trivial, fun h => by cases h⟩

theorem releaseRedisLock_spec (key token : String) (hi : Inv s) :
    CallSpec req t (.releaseRedisLock key token) s fun _ s' => Passive t s s' ∧ True := by
  refine passive_spec hi fun ch a s' he => ?_
  obtain ⟨-, rfl⟩ := Prod.mk.inj (Option.some.inj he)
  exact ⟨Or.inl rfl, trivial, trivial⟩

/-! ## Reads -/

/-- A single read returns what is committed at that moment, or meets a fault. -/
def ReadPost {α : Type} (t : Nat) (s : Server) (v : α) (a : Except DbError α) (s' : Server) :
    Prop :=
  Passive t s s' ∧ ((a = .ok v ∧ s' = s) ∨ (∃ err, a = .error err) ∧ Faulted t s')

theorem autocommit_read {α : Type} {ch : Choice} {v : α} {a : Except DbError α}
    (h : s.autocommit t ch (some (.ok v, s)) = some (a, s')) : ReadPost t s v a s' := by
  simp only [Server.autocommit] at h
  split at h
  · obtain ⟨rfl, rfl⟩ := Prod.mk.inj (Option.some.inj h)
    exact ⟨Or.inr rfl, Or.inr ⟨⟨_, rfl⟩, faulted_markFault s t⟩⟩
  · obtain ⟨rfl, rfl⟩ := Prod.mk.inj (Option.some.inj h)
    exact ⟨Or.inl rfl, Or.inl ⟨rfl, rfl⟩⟩

theorem selectEventByID_spec (e : Int) (hi : Inv s) :
    CallSpec req t (.selectEventByID e) s (ReadPost t s (s.selectEventByID e)) :=
  passive_spec hi fun _ _ _ he => ⟨(autocommit_read he).1, trivial, (autocommit_read he).2⟩

theorem selectDrawnEvent_spec (e : Int) (hi : Inv s) :
    CallSpec req t (.selectDrawnEvent e) s (ReadPost t s (s.selectDrawnEvent e)) :=
  passive_spec hi fun _ _ _ he => ⟨(autocommit_read he).1, trivial, (autocommit_read he).2⟩

theorem selectDraws_spec (e : Int) (hi : Inv s) :
    CallSpec req t (.selectDraws e) s (ReadPost t s (s.selectDraws e)) :=
  passive_spec hi fun _ _ _ he => ⟨(autocommit_read he).1, trivial, (autocommit_read he).2⟩

theorem selectSeal_spec (e : Int) (hi : Inv s) :
    CallSpec req t (.selectSeal e) s (ReadPost t s (s.selectSeal e)) :=
  passive_spec hi fun _ _ _ he => ⟨(autocommit_read he).1, trivial, (autocommit_read he).2⟩

/-- `rows.Err()` of a query outside a transaction. -/
theorem rowsErr_idle_spec (hi : Inv s) (h : Idle t s) :
    CallSpec req t .rowsErr s (ReadPost t s ()) := by
  refine passive_spec hi fun ch a s' he => ?_
  simp only [Server.exec, Server.rowsErr, Server.failTx, h.session] at he
  split at he
  · obtain ⟨rfl, rfl⟩ := Prod.mk.inj (Option.some.inj he)
    exact ⟨Or.inr rfl, trivial, Or.inr ⟨⟨_, rfl⟩, faulted_markFault s t⟩⟩
  · obtain ⟨rfl, rfl⟩ := Prod.mk.inj (Option.some.inj he)
    exact ⟨Or.inl rfl, trivial, Or.inl ⟨rfl, rfl⟩⟩

/-! ## Insertions -/

theorem insertUser_spec (email hash name : String) (hi : Inv s) :
    CallSpec req t (.insertUser email hash name) s fun _ s' => s'.session t = s.session t := by
  intro ch a s' he
  simp only [Server.exec, Server.autocommit] at he
  split at he
  · obtain ⟨rfl, rfl⟩ := Prod.mk.inj (Option.some.inj he)
    have hq := quiet_markFault t s
    exact ⟨hq.guar Iff.rfl trivial, hq.inv_of_lock hi rfl, rfl⟩
  · simp only [Server.insertUser] at he
    split at he
    · obtain ⟨rfl, rfl⟩ := Prod.mk.inj (Option.some.inj he)
      exact ⟨(Quiet.refl t s).guar Iff.rfl trivial, hi, rfl⟩
    · split at he
      · obtain ⟨rfl, rfl⟩ := Prod.mk.inj (Option.some.inj he)
        have hq : Quiet t s { s with nextUserID := s.nextUserID + 1 } :=
          ⟨rfl, rfl, rfl, fun _ _ => rfl, fun _ _ => rfl, fun _ _ _ => Iff.rfl⟩
        exact ⟨hq.guar Iff.rfl trivial, hq.inv_of_lock hi rfl, rfl⟩
      · obtain ⟨rfl, rfl⟩ := Prod.mk.inj (Option.some.inj he)
        have husers : ∀ u, s.db.HasUser u → Tables.HasUser { s.db with
            users := s.db.users ++ [⟨s.nextUserID, email, hash, name, .user⟩] } u := by
          rintro u ⟨row, hrow, hu⟩
          exact ⟨row, List.mem_append_left _ hrow, hu⟩
        refine ⟨⟨⟨fun _ _ => rfl, fun _ _ => rfl, fun _ _ _ => Iff.rfl, husers, rfl⟩,
          .silent (fun _ => rfl) Iff.rfl, trivial⟩, ⟨hi.wellFormed, hi.fresh, hi.locks, ?_, hi.ids⟩,
          rfl⟩
        exact fun e u hu => husers u (hi.users e u hu)

/-- A new event is found under its own number only. -/
theorem slice_insertEvent (db : Tables) (row : EventRow) (e : Int)
    (hnew : (db.slice row.id).row = none) :
    Tables.slice { db with events := db.events ++ [row] } e =
      if e = row.id then { db.slice e with row := some row } else db.slice e := by
  split
  · rename_i he
    subst he
    have hfind : db.events.find? (·.id = row.id) = none := hnew
    simp [Tables.slice, List.find?_append, hfind]
  · rename_i he
    have hne : row.id ≠ e := fun h => he h.symm
    simp [Tables.slice, List.find?_append, hne]

/-- The insertion of an event whose number is new. -/
theorem createEvent (req : Nat → Request) (t : Nat) {q : Call} {a : q.Answer} (row : EventRow)
    (hi : Inv s) (hid : row.id = s.nextEventID) (hopen : row.status = .opened)
    (hvalid : Valid row.id row) (hu : Unviolated q a) :
    Guar req t q a s { s with
        nextEventID := s.nextEventID + 1
        db := { s.db with events := s.db.events ++ [row] } } ∧
      Inv { s with
        nextEventID := s.nextEventID + 1
        db := { s.db with events := s.db.events ++ [row] } } := by
  have hnone : (s.db.slice row.id).row = none := by
    by_contra hrow
    have := hi.fresh _ hrow
    omega
  have hempty : s.db.slice row.id = .empty := (hi.wellFormed row.id).absent hnone
  have hslice := fun e => slice_insertEvent s.db row e hnone
  have hself : Tables.slice { s.db with events := s.db.events ++ [row] } row.id =
      { s.db.slice row.id with row := some row } := by rw [hslice, if_pos rfl]
  have hother : ∀ e ≠ row.id, Tables.slice { s.db with events := s.db.events ++ [row] } e =
      s.db.slice e := fun e he => by rw [hslice, if_neg he]
  have htrans : Transition row.id (s.db.slice row.id)
      (Tables.slice { s.db with events := s.db.events ++ [row] } row.id) := by
    rw [hself]
    exact .create row hempty hvalid hopen
  refine ⟨⟨⟨fun _ _ => rfl, fun _ _ => rfl, fun _ _ _ => Iff.rfl, fun _ h => h, rfl⟩,
    .create row.id htrans hnone hother Iff.rfl, hu⟩, ⟨?_, ?_, ?_, ?_, ?_⟩⟩
  · intro e
    by_cases he : e = row.id
    · subst he
      exact htrans.wellFormed (hi.wellFormed row.id)
    · exact (hother e he).symm ▸ hi.wellFormed e
  · intro e hrow
    by_cases he : e = row.id
    · change e < s.nextEventID + 1
      omega
    · have := hi.fresh e ((hother e he) ▸ hrow)
      change e < s.nextEventID + 1
      omega
  · intro k u hk
    obtain ⟨h₁, h₂⟩ := hi.locks k u hk
    have hne : k.eventID ≠ row.id := fun hk => h₂ (hk ▸ hnone)
    exact ⟨h₁, (hother _ hne).symm ▸ h₂⟩
  · intro e u hmem
    have hbook : (Tables.slice { s.db with events := s.db.events ++ [row] } e).entrants =
        (s.db.slice e).entrants := rfl
    exact hi.users e u (hbook ▸ hmem)
  · have hfresh : row.id ∉ s.db.events.map (·.id) := by
      intro hmem
      obtain ⟨r, hr, hid⟩ := List.mem_map.mp hmem
      have := List.find?_eq_none.mp hnone r hr
      simp [hid] at this
    rw [List.map_append, List.map_singleton]
    exact List.nodup_append_comm.mp (List.nodup_cons.mpr ⟨hfresh, hi.ids⟩)

theorem insertEvent_spec (title description : String) (capacity : Int) (drawAt : Time)
    (winnerCount createdBy : Int) (hi : Inv s) :
    CallSpec req t (.insertEvent title description capacity drawAt winnerCount createdBy) s
      fun _ s' => s'.session t = s.session t := by
  intro ch a s' he
  simp only [Server.exec, Server.autocommit] at he
  split at he
  · obtain ⟨rfl, rfl⟩ := Prod.mk.inj (Option.some.inj he)
    have hq := quiet_markFault t s
    exact ⟨hq.guar Iff.rfl trivial, hq.inv_of_lock hi rfl, rfl⟩
  · have hbump : Guar req t (.insertEvent title description capacity drawAt winnerCount createdBy)
        a s { s with nextEventID := s.nextEventID + 1 } ∧
        Inv { s with nextEventID := s.nextEventID + 1 } := by
      refine ⟨⟨⟨fun _ _ => rfl, fun _ _ => rfl, fun _ _ _ => Iff.rfl, fun _ h => h, rfl⟩,
        .silent (fun _ => rfl) Iff.rfl, trivial⟩, ⟨hi.wellFormed, ?_, hi.locks, hi.users, hi.ids⟩⟩
      intro e he
      have := hi.fresh e he
      change e < s.nextEventID + 1
      omega
    simp only [Server.insertEvent] at he
    split at he
    · obtain ⟨rfl, rfl⟩ := Prod.mk.inj (Option.some.inj he)
      exact ⟨(Quiet.refl t s).guar Iff.rfl trivial, hi, rfl⟩
    · rename_i hint
      split at he
      · obtain ⟨rfl, rfl⟩ := Prod.mk.inj (Option.some.inj he)
        exact ⟨(Quiet.refl t s).guar Iff.rfl trivial, hi, rfl⟩
      · split at he
        · obtain ⟨rfl, rfl⟩ := Prod.mk.inj (Option.some.inj he)
          exact ⟨hbump.1, hbump.2, rfl⟩
        · rename_i hcheck
          split at he
          · obtain ⟨rfl, rfl⟩ := Prod.mk.inj (Option.some.inj he)
            exact ⟨hbump.1, hbump.2, rfl⟩
          · split at he
            · obtain ⟨rfl, rfl⟩ := Prod.mk.inj (Option.some.inj he)
              exact ⟨hbump.1, hbump.2, rfl⟩
            · obtain ⟨rfl, rfl⟩ := Prod.mk.inj (Option.some.inj he)
              have hpos := not_not.mp hcheck
              have hfit := (not_not.mp hint).1.2
              obtain ⟨hg, hinv⟩ := createEvent req t
                (q := .insertEvent title description capacity drawAt winnerCount createdBy)
                (a := .ok (EventRow.scan ⟨s.nextEventID, title, description, capacity,
                  winnerCount, drawAt.toTimestamp, .opened, createdBy, s.clock, s.clock⟩ 0))
                ⟨s.nextEventID, title, description, capacity, winnerCount, drawAt.toTimestamp,
                  .opened, createdBy, s.clock, s.clock⟩
                hi rfl rfl ⟨rfl, hpos.2.1, hpos.2.2, hfit⟩ trivial
              exact ⟨hg, hinv, rfl⟩

end LotterySystem.Serialization
