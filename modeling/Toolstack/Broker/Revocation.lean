import Toolstack.Broker.Authority

/-! Revocation: once a caller is revoked, or left without a token, none of its requests is moved into
execution again, wherever the programs that work on them have got to. -/

namespace Toolstack.Broker

open Interleave (Discipline Prog System)
open Interleave.Discipline (Triple)

variable {H : Hash} {i callerId : Nat} {name : String} {w : World} {db db' : Db} {c c' : Config} {m : Move}

/-! ## Callers and tokens through a call -/

/-- There is a caller of this name. -/
def Known (name : String) (w : World) : Prop := ∃ row ∈ w.db.callers.rows, row.name = name

/-- What a call makes of the callers: they stay, or one of a new name comes, or some are revoked. -/
theorem callers_exec (o : Op) (ω : Oracle) (w : World) :
    (w.exec H i o ω).2.db.callers.rows = w.db.callers.rows ∨
      (∃ row, (w.exec H i o ω).2.db.callers.rows = w.db.callers.rows ++ [row] ∧ ¬ Known row.name w) ∨
      ∃ (now : Time) (p : CallerRow → Bool), (w.exec H i o ω).2.db.callers.rows =
        w.db.callers.rows.map fun row => if p row then { row with revokedAt := some now } else row := by
  rw [exec_snd]
  cases ho : o.identifies with
  | false =>
    have hsame := Op.identity_run (H := H) (w := w) (ω := ω) ho
    exact .inl (congrArg Table.rows hsame.callers)
  | true =>
    cases o with
    | addCaller name =>
      simp only [Op.run, Db.addCaller]
      split_ifs with hused
      · exact .inl rfl
      · refine .inr (.inl ⟨⟨w.db.callers.nextId, name, ω.now, none⟩, rfl, ?_⟩)
        rintro ⟨row, hrow, hname⟩
        exact hused (List.any_eq_true.2 ⟨row, hrow, decide_eq_true hname⟩)
    | addToken owner hash =>
      simp only [Op.run, Db.addToken]
      split_ifs <;> exact .inl rfl
    | revokeCaller name => exact .inr (.inr ⟨ω.now, _, rfl⟩)
    | revokeTokensForCaller => exact .inl rfl
    | revokeTokenByPrefix pre =>
      simp only [Op.run, Db.revokeTokenByPrefix]
      split_ifs <;> exact .inl rfl
    | _ => cases ho

/-- What a call makes of the tokens: they stay, or an active one comes, or some are revoked. -/
theorem tokens_exec (o : Op) (ω : Oracle) (w : World) :
    (w.exec H i o ω).2.db.tokens.rows = w.db.tokens.rows ∨
      (∃ owner hash, o = .addToken owner hash ∧ (w.db.addToken ω.now owner hash).1 = .ok () ∧
        (w.exec H i o ω).2.db.tokens.rows = w.db.tokens.rows ++ [⟨hash, owner, ω.now, none⟩]) ∨
      ∃ (now : Time) (p : TokenRow → Bool), (w.exec H i o ω).2.db.tokens.rows =
        w.db.tokens.rows.map fun t => if p t then { t with revokedAt := some now } else t := by
  rw [exec_snd]
  cases ho : o.identifies with
  | false =>
    have hsame := Op.identity_run (H := H) (w := w) (ω := ω) ho
    exact .inl (congrArg Table.rows hsame.tokens)
  | true =>
    cases o with
    | addCaller name =>
      simp only [Op.run, Db.addCaller]
      split_ifs <;> exact .inl rfl
    | addToken owner hash =>
      by_cases hfree : (∀ t ∈ w.db.tokens.rows, Keyed.key t ≠ hash) ∧ (w.db.callers.get? owner).isSome
      · exact .inr (.inl ⟨owner, hash, rfl, by rw [Db.addToken, dif_pos hfree],
          by simp only [Op.run, Db.addToken, dif_pos hfree]; rfl⟩)
      · exact .inl (by simp only [Op.run, Db.addToken, dif_neg hfree])
    | revokeCaller name => exact .inl rfl
    | revokeTokensForCaller c hash => exact .inr (.inr ⟨ω.now, _, rfl⟩)
    | revokeTokenByPrefix pre =>
      simp only [Op.run, Db.revokeTokenByPrefix]
      split_ifs
      · exact .inr (.inr ⟨ω.now, _, rfl⟩)
      · exact .inl rfl
    | _ => cases ho

/-! ## Callers nothing can be done for -/

namespace Db

/-- The caller is there and revoked. -/
def Gone (callerId : Nat) (db : Db) : Prop :=
  ∃ row, db.callers.get? callerId = some row ∧ row.revokedAt.isSome

/-- The caller is revoked, or has no active token. -/
def Barred (callerId : Nat) (db : Db) : Prop := db.Gone callerId ∨ db.activeTokenCount callerId = 0

theorem activeTokenCount_eq_zero : db.activeTokenCount callerId = 0 ↔
    ∀ t ∈ db.tokens.rows, t.callerId = callerId → t.revokedAt.isSome := by
  simp [activeTokenCount, countActive, Table.select, List.filter_eq_nil_iff, Option.isSome_iff_ne_none]

theorem Gone.not_live (h : db.Gone callerId) (presented : Option Caller) :
    db.live callerId presented = false := by
  obtain ⟨row, hrow, hrevoked⟩ := h
  have hnone : row.revokedAt.isNone = false := by
    rw [← Option.not_isSome, hrevoked]
    rfl
  simp [live, hrow, hnone]

theorem Barred.not_live (h : db.Barred callerId) (presented : Option Caller) :
    db.live callerId presented = false := by
  rcases h with hgone | hcount
  · exact hgone.not_live presented
  · have htokens := activeTokenCount_eq_zero.1 hcount
    have hpresented : ∀ h, ((db.tokens.get? h).any fun t =>
        decide (t.callerId = callerId) && t.revokedAt.isNone) = false := by
      intro h
      cases ht : db.tokens.get? h with
      | none => rfl
      | some t =>
        by_cases howner : t.callerId = callerId
        · have hrevoked := htokens t (Table.mem_of_get? ht) howner
          simp [← Option.not_isSome, hrevoked]
        · simp [howner]
    unfold live
    cases presented with
    | none => simp [hcount]
    | some p => cases hhash : p.tokenHash <;> simp [hcount, hhash, hpresented]

/-- A restored database has no token left. -/
theorem barred_sanitize (now : Time) (uuid : Text) (db : Db) : (db.sanitize now uuid).Barred callerId := by
  refine .inr (activeTokenCount_eq_zero.2 fun t' ht' _ => ?_)
  obtain ⟨t, -, rfl⟩ := List.mem_map.1 ht'
  cases ht : t.revokedAt <;> simp [ht]

end Db

theorem gone_exec {o : Op} {ω : Oracle} (h : w.db.Gone callerId) : (w.exec H i o ω).2.db.Gone callerId := by
  obtain ⟨row, hrow, hrevoked⟩ := h
  obtain ⟨hmem, hid⟩ := Table.get?_eq_some_iff.1 hrow
  rcases callers_exec (H := H) (i := i) o ω w with hsame | ⟨new, hnew, -⟩ | ⟨now, p, hmap⟩
  · exact ⟨row, Table.get?_eq_some_iff.2 ⟨hsame ▸ hmem, hid⟩, hrevoked⟩
  · exact ⟨row, Table.get?_eq_some_iff.2 ⟨hnew ▸ List.mem_append_left _ hmem, hid⟩, hrevoked⟩
  · refine ⟨_, Table.get?_eq_some_iff.2 ⟨hmap ▸ List.mem_map_of_mem hmem, ?_⟩, ?_⟩
    · split_ifs <;> exact hid
    · split_ifs
      · rfl
      · exact hrevoked

/-- The move does not issue a token to the caller. -/
def NoToken (callerId : Nat) (c : Config) (m : Move) : Prop :=
  ∀ i ω j hash k, m = .call i ω → c.threads[i]? = some ⟨j, some (.call (.addToken callerId hash) k)⟩ →
    (c.world.db.addToken ω.now callerId hash).1 ≠ .ok ()

theorem barred_exec {o : Op} {ω : Oracle} (h : w.db.Barred callerId)
    (hno : ∀ hash, o = .addToken callerId hash → (w.db.addToken ω.now callerId hash).1 ≠ .ok ()) :
    (w.exec H i o ω).2.db.Barred callerId := by
  refine h.imp gone_exec fun hcount => Db.activeTokenCount_eq_zero.2 fun t ht howner => ?_
  have hrevoked := Db.activeTokenCount_eq_zero.1 hcount
  rcases tokens_exec (H := H) (i := i) o ω w with hsame | ⟨owner, hash, ho, hok, hnew⟩ | ⟨now, p, hmap⟩
  · exact hrevoked t (hsame ▸ ht) howner
  · rw [hnew] at ht
    rcases List.mem_append.1 ht with hold | hlast
    · exact hrevoked t hold howner
    · obtain rfl := List.mem_singleton.1 hlast
      obtain rfl : owner = callerId := howner
      exact absurd hok (hno hash ho)
  · rw [hmap] at ht
    obtain ⟨t₀, ht₀, rfl⟩ := List.mem_map.1 ht
    split_ifs at howner ⊢
    · rfl
    · exact hrevoked t₀ ht₀ howner

theorem barred_step (h : c.world.db.Barred callerId) (hs : (broker H).step c m = some c')
    (hno : NoToken callerId c m) : c'.world.db.Barred callerId := by
  cases m with
  | start j =>
    obtain rfl := Option.some.inj hs
    exact h
  | call i ω =>
    obtain ⟨j, o, k, hthread, hworld, -⟩ := System.step_call hs
    rw [hworld]
    exact barred_exec h fun hash ho => hno i ω j hash (ho ▸ k) rfl (by subst ho; exact hthread)
  | crash i =>
    obtain ⟨-, -, -, -, hworld, -⟩ := System.step_crash hs
    rwa [hworld]
  | env e =>
    obtain rfl := Option.some.inj hs
    exact (e.apply_db c.world).symm ▸ h
  | offline f =>
    have hworld := (System.step_offline hs).2.1
    cases f with
    | reconcile now =>
      rw [← Option.some.inj hworld]
      exact h
    | restore n now uuid =>
      obtain ⟨b, -, hb⟩ := Option.map_eq_some_iff.1 hworld
      rw [← hb]
      exact Db.barred_sanitize now uuid b.1

/-! ## What the operator's program leaves -/

/-- Every caller of this name is revoked. -/
structure Revoked (name : String) (w : World) : Prop where
  known : Known name w
  all : ∀ row ∈ w.db.callers.rows, row.name = name → row.revokedAt.isSome

theorem Known.exec {o : Op} {ω : Oracle} (h : Known name w) : Known name (w.exec H i o ω).2 := by
  obtain ⟨row, hrow, hname⟩ := h
  rcases callers_exec (H := H) (i := i) o ω w with hsame | ⟨new, hnew, -⟩ | ⟨now, p, hrevoked⟩
  · exact ⟨row, hsame ▸ hrow, hname⟩
  · exact ⟨row, hnew ▸ List.mem_append_left _ hrow, hname⟩
  · refine ⟨_, hrevoked ▸ List.mem_map_of_mem hrow, ?_⟩
    split_ifs <;> exact hname

theorem Revoked.exec {o : Op} {ω : Oracle} (h : Revoked name w) : Revoked name (w.exec H i o ω).2 := by
  refine ⟨h.known.exec, fun row hrow hname => ?_⟩
  rcases callers_exec (H := H) (i := i) o ω w with hsame | ⟨new, hnew, hfresh⟩ | ⟨now, p, hrevoked⟩
  · exact h.all row (hsame ▸ hrow) hname
  · rw [hnew] at hrow
    rcases List.mem_append.1 hrow with hold | hlast
    · exact h.all row hold hname
    · obtain rfl := List.mem_singleton.1 hlast
      exact absurd (hname ▸ h.known) hfresh
  · rw [hrevoked] at hrow
    obtain ⟨row₀, hrow₀, rfl⟩ := List.mem_map.1 hrow
    split_ifs at hname ⊢
    · rfl
    · exact h.all row₀ hrow₀ hname

theorem Others.keeps {P : World → Prop} {w' : World} (h : Others H i w w')
    (hexec : ∀ {j o w} ω, P w → P (World.exec H j o ω w).2)
    (henv : ∀ e w, P w → P (EnvMove.apply e w)) (hw : P w) : P w' := by
  induction h with
  | refl => exact hw
  | call ω _ _ _ _ ih => exact hexec ω ih
  | env e _ ih => exact henv e _ ih

/-- What no call and no move beside the threads undoes lasts. -/
theorem Lasting.of_exec {P : World → Prop} (hexec : ∀ {j o w} ω, P w → P (World.exec H j o ω w).2)
    (henv : ∀ e w, P w → P (EnvMove.apply e w)) : Lasting H i P where
  stable _ _ hothers hw := hothers.keeps hexec henv hw
  exec _ _ ω _ _ hw := hexec ω hw

theorem Lasting.known : Lasting H i (Known name) :=
  .of_exec (fun _ h => h.exec) fun e w h => by rwa [Known, e.apply_db]

theorem Lasting.revoked : Lasting H i (Revoked name) :=
  .of_exec (fun _ h => h.exec) fun e w h => ⟨by simpa only [Known, e.apply_db] using h.known,
    by simpa only [e.apply_db] using h.all⟩

namespace Operations

/-- A revocation that returns has revoked the caller. -/
theorem revokeCaller_spec {operator : String} {surface : Bool} :
    (discipline H).Triple i (fun _ => True) (revokeCaller name operator surface)
      (fun _ => Revoked name) (fun _ _ => True) := by
  have hfree : ∀ {α : Type} {p : Action α}, Free p → (discipline H).Triple i (Revoked name) p
      (fun _ => Revoked name) (fun _ _ => True) := fun hp =>
    (Lasting.revoked.triple hp.triple).conseq (fun _ _ h => ⟨trivial, h⟩) (fun _ _ _ h => h.2)
      fun _ _ _ _ => trivial
  refine .bind (Q := fun _ => Known name) ?_ fun caller => ?_
  · refine .bind (Q := fun (row : Option CallerRow) w => ∀ r, row = some r → Known name w)
      (triple_perform (.const True) (fun _ _ _ => trivial) fun w ω _ _ row hrow => ?_) fun row => ?_
    · have hfind : w.db.callers.rows.find? (fun c => c.name = name) = some row := hrow
      exact Known.exec ⟨row, List.mem_of_find?_eq_some hfind, by simpa using List.find?_some hfind⟩
    · cases row with
      | none => exact .raise fun _ _ _ => trivial
      | some row => exact .ret fun _ _ h => h row rfl
  refine .bind (Q := fun _ => Revoked name) (.perform Lasting.known.stable (fun _ _ _ => trivial)
    fun w ω _ hw => ⟨hw.exec, fun row hrow hname => ?_⟩) fun _ => ?_
  · obtain ⟨row₀, -, rfl⟩ := List.mem_map.1 hrow
    cases hrevoked : row₀.revokedAt <;> by_cases hn : row₀.name = name <;> simp_all
  exact .bind (hfree free_cancelPendingApprovals) fun _ => .bind (hfree free_recordAdminEvent) fun _ =>
    .ret fun _ _ h => h

end Operations

/-! ## Every run -/

/-- What a job has seen to when it returns. -/
def Seen : Job → Reply → World → Prop
  | .revokeCaller name _ _, _, w => Revoked name w
  | _, _, _ => True

theorem seen_program (H : Hash) (i : Nat) (j : Job) :
    (discipline H).Triple i ((discipline H).fresh i) (program H j) (Seen j) (fun _ _ => True) := by
  have hany := disciplined H i j
  cases j with
  | revokeCaller name operator surface =>
    have hdone : (discipline H).Triple i ((discipline H).fresh i)
        (Operations.revokeCaller name operator surface >>= fun n => .ret (Reply.count n))
        (fun _ => Revoked name) (fun _ _ => True) :=
      .bind (Operations.revokeCaller_spec.conseq (fun _ _ _ => trivial) (fun _ _ _ h => h)
        fun _ _ _ h => h) fun _ => .ret fun _ _ h => h
    exact hdone
  | _ => exact hany

/-- The operator's program that revokes the caller: by name, or its last token. -/
inductive Revokes (callerId : Nat) (db : Db) : Job → Prop
  | caller (operator : String) (surface : Bool) (row : CallerRow) (named : db.callers.get? callerId = some row) :
      Revokes callerId db (.revokeCaller row.name operator surface)
  | token (pre : Text) (operator : String) (surface : Bool) (last : db.activeTokenCount callerId = 0) :
      Revokes callerId db (.revokeToken pre operator surface)

theorem Reachable.barred {j : Job} {a : Reply} (h : Reachable H c) (hs : (broker H).step c m = some c')
    (hrunning : ∀ t, c.threads[i]? = some t → t.stopped = false)
    (hreturned : c'.threads[i]? = some ⟨j, some (.ret a)⟩) (hrevokes : Revokes callerId c'.world.db j) :
    c'.world.db.Barred callerId := by
  obtain ⟨uuid, hrun⟩ := h
  have hinitial : (discipline H).Covered (⟨World.initial uuid, []⟩ : Config) :=
    .initial (World.Sound.initial uuid) fun _ => .initial uuid
  have hseen : Seen j a c'.world :=
    hinitial.wp_of_step (disciplined H) (seen_program H) hrun (Nat.zero_le i) hs hrunning hreturned
  cases hrevokes with
  | caller operator surface row named =>
    exact .inl ⟨row, named, hseen.all row (Table.mem_of_get? named) rfl⟩
  | token pre operator surface last => exact .inr last

/-- Once a caller is revoked, or its last token, no request of it comes into execution as long as it gets
no new token: whatever is executing then was executing when the revocation returned. -/
theorem revocation_stops {j : Job} {a : Reply} {c₂ : Config} {r : Nat} {row : Row} (h : Reachable H c)
    (hs : (broker H).step c m = some c') (hrunning : ∀ t, c.threads[i]? = some t → t.stopped = false)
    (hreturned : c'.threads[i]? = some ⟨j, some (.ret a)⟩) (hrevokes : Revokes callerId c'.world.db j)
    (hlater : (broker H).Steps (NoToken callerId) c' c₂) (hrow : c₂.world.db.request r = some row)
    (howner : row.callerId = callerId) (hexec : row.status = .executing) :
    ∃ row', c'.world.db.request r = some row' ∧ row'.status = .executing := by
  have hbarred : c'.world.db.Barred callerId := h.barred hs hrunning hreturned hrevokes
  have hreach : Reachable H c' := h.step hs
  have hkeep : c₂.world.db.Barred callerId ∧ ∀ r row, c₂.world.db.request r = some row →
      row.callerId = callerId → row.status = .executing →
      ∃ row', c'.world.db.request r = some row' ∧ row'.status = .executing := by
    refine hlater.invariant (P := fun c₂ => c₂.world.db.Barred callerId ∧ ∀ r row,
      c₂.world.db.request r = some row → row.callerId = callerId → row.status = .executing →
      ∃ row', c'.world.db.request r = some row' ∧ row'.status = .executing)
      ⟨hbarred, fun r row hrow _ hexec => ⟨row, hrow, hexec⟩⟩ fun c₃ m₃ c₄ hrun hok hs₃ ih => ?_
    refine ⟨barred_step ih.1 hs₃ hok, fun r row hrow howner hexec => ?_⟩
    have hreach₃ : Reachable H c₃ := hreach.steps hrun
    by_cases hbefore : ∃ row₃, c₃.world.db.request r = some row₃ ∧ row₃.status = .executing
    · obtain ⟨row₃, hrow₃, hexec₃⟩ := hbefore
      have hsame := hreach₃.executing_same hs₃ hrow₃ hrow hexec (.inl hexec₃)
      exact ih.2 r row₃ hrow₃ (hsame ▸ howner) hexec₃
    · obtain ⟨k, ω, o, row₃, rfl, -, -, hrow₃, hwon⟩ := hreach₃.won hs₃ hrow hexec
        fun row₃ hrow₃ hexec₃ => hbefore ⟨row₃, hrow₃, hexec₃⟩
      have hlive : ∃ presented, c₃.world.db.live row₃.callerId presented = true := by
        cases hwon with
        | received g caller d valid =>
          simp only [Db.receivedValid, Bool.and_eq_true] at valid
          exact ⟨caller, valid.1.1.1.1.1.2⟩
        | approval g state now caller app look valid =>
          simp only [Db.approvalValid, Bool.and_eq_true] at valid
          exact ⟨caller, valid.1.1.1.1.1.1.2⟩
      obtain ⟨presented, hlive⟩ := hlive
      have hsame : SameDatabase c₃ (.call k ω) := fun _ _ _ heq => by cases heq
      obtain ⟨row₄, hrow₄, hprecedes⟩ := (hreach₃.later (System.Steps.tail .refl hsame hs₃) r).row row₃ hrow₃
      obtain rfl := Option.some.inj (hrow.symm.trans hrow₄)
      rw [← Row.frozen_callerId hprecedes.frozen, howner, ih.1.not_live] at hlive
      cases hlive
  exact hkeep.2 r row hrow howner hexec

namespace Sample

/-- What the surface and the clock answer while a request is opened and approved. -/
def approving : Oracle := { opened := .ok [], polled := .ok { outcome := .approved } }

/-- Thread 1 has created its approval, the request is not parked yet, and thread 2 revokes the caller. -/
def revoking : List Move :=
  setup [] ["echo.run"] ++ .start (submit .null) :: calls 1 approving 12 ++
    .start (.revokeCaller "ann" "op" true) :: calls 2 {} 5

/-- Thread 1 parks the request, and thread 3 polls it. -/
def approvedLater : List Move :=
  calls 1 {} 2 ++ .start (.resolve context 1 (some 0) none) :: calls 3 approving 12

/-- The call of the move is not about a token. -/
def tokenless (c : Config) : Move → Bool
  | .call i _ =>
    match c.threads[i]? with
    | some ⟨_, some (.call (.addToken _ _) _)⟩ => false
    | _ => true
  | _ => true

theorem noToken_of_tokenless (h : tokenless c m = true) : NoToken callerId c m := by
  rintro i ω j hash k rfl hthread
  simp only [tokenless, hthread] at h
  cases h

/-- The operator's revocation of the caller has returned. -/
def returned : Interleave.Thread Op Op.Ret Exn Reply Job → Bool
  | ⟨.revokeCaller name operator surface, some (.ret _)⟩ => name == "ann" && operator == "op" && surface
  | _ => false

theorem of_returned {t : Interleave.Thread Op Op.Ret Exn Reply Job} (h : returned t = true) :
    ∃ a, t = ⟨.revokeCaller "ann" "op" true, some (.ret a)⟩ := by
  unfold returned at h
  split at h
  · simp only [Bool.and_eq_true, beq_iff_eq] at h
    obtain ⟨⟨rfl, rfl⟩, rfl⟩ := h
    exact ⟨_, rfl⟩
  · cases h

end Sample

/-- The request is approved after the caller was revoked, and is not executed. -/
theorem revocation_stops_revoking : ∃ c c' c₂ row, after Sample.hash Sample.revoking = some c ∧
    (broker Sample.hash).step c (.call 2 {}) = some c' ∧
    (broker Sample.hash).runIf Sample.tokenless c' Sample.approvedLater = some c₂ ∧
    c₂.world.db.request 1 = some row ∧ row.callerId = 1 ∧ row.status ≠ .executing := by
  have hrun : ((after Sample.hash Sample.revoking).bind fun c =>
      ((broker Sample.hash).step c (.call 2 {})).bind fun c' =>
        ((broker Sample.hash).runIf Sample.tokenless c' Sample.approvedLater).bind fun c₂ =>
          (c₂.world.db.request 1).map fun row => decide (row.callerId = 1 ∧
            (c'.world.db.request 1).map Row.status = some .received ∧
            (c'.world.db.callers.get? 1).map CallerRow.name = some "ann")) = some true := by
    decide +kernel
  have hthreads : ((after Sample.hash Sample.revoking).bind fun c =>
      ((broker Sample.hash).step c (.call 2 {})).map fun c' =>
        (c.threads[2]?).any (fun t => !t.stopped) && (c'.threads[2]?).any Sample.returned) = some true := by
    decide +kernel
  obtain ⟨c, hc, hrun⟩ := Option.bind_eq_some_iff.1 hrun
  obtain ⟨c', hs, hrun⟩ := Option.bind_eq_some_iff.1 hrun
  obtain ⟨c₂, hlater, hrun⟩ := Option.bind_eq_some_iff.1 hrun
  obtain ⟨row, hrow, hfacts⟩ := Option.map_eq_some_iff.1 hrun
  obtain ⟨howner, hreceived, hname⟩ := of_decide_eq_true hfacts
  obtain ⟨ann, hann, hname⟩ := Option.map_eq_some_iff.1 hname
  rw [hc, Option.bind_some, hs, Option.map_some, Option.some_inj, Bool.and_eq_true, Option.any_eq_true,
    Option.any_eq_true] at hthreads
  obtain ⟨⟨t, ht, hrunning⟩, ⟨t', ht', hreturned⟩⟩ := hthreads
  obtain ⟨a, rfl⟩ := Sample.of_returned hreturned
  have hrevokes : Revokes 1 c'.world.db (.revokeCaller "ann" "op" true) := hname ▸ .caller "op" true ann hann
  refine ⟨c, c', c₂, row, hc, hs, hlater, hrow, howner, fun hexec => ?_⟩
  obtain ⟨row', hrow', hexec'⟩ := revocation_stops (.after hc) hs
    (fun t₀ ht₀ => by
      obtain rfl := Option.some.inj (ht.symm.trans ht₀)
      simpa using hrunning)
    ht' hrevokes (.of_runIf hlater fun _ _ => Sample.noToken_of_tokenless) hrow howner hexec
  rw [hrow', Option.map_some, hexec'] at hreceived
  cases hreceived

end Toolstack.Broker
