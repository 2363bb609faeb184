import Toolstack.Sps.Handlers

/-! Who may make the backend do what: every call of the plugin is backed by the latest
registration of the tool it is made for. -/

namespace Toolstack.Sps

open Interleave (Prog Answered)

variable {σ : Type} {cfg : Config} {plugin : Plugin σ} {toolId : PyStr} {msg : Message}
  {w : World σ} {operation : Operation}

/-! ## What a history says -/

/-- What a successful request leaves of the registration of `toolId`, if it is about it. -/
def Served.settles (toolId : PyStr) (s : Served) : Option (Option Registration) :=
  match s.result, field s.message "toolid" with
  | .ok _, some t =>
    if t = toolId then
      match s.operation with
      | .register =>
        match parseEsecret s.message, parseCsTuples (Json.find? s.message (py "secrets")) with
        | .ok esecret, .ok entries => some (some ⟨esecret, entries⟩)
        | _, _ => none
      | .unregister => some none
      | _ => none
    else none
  | _, _ => none

/-- The latest registration of `toolId` that was not undone; the history is newest first. -/
def latest (toolId : PyStr) (history : List Served) : Option Registration :=
  (history.findSome? (Served.settles toolId)).join

/-- The field and the item a plugin call is about, and whether it writes. -/
def Op.access : Op → Option (PyStr × PyStr × Bool)
  | getSecret fieldName item => some (fieldName, item, false)
  | writeSecret fieldName item _ => some (fieldName, item, true)
  | _ => none

/-- The access is one the message may ask for, given the registrations `reg`: it presents the
secret of its tool's registration, and one of the entries declared there covers the access. -/
structure Backed (reg : PyStr → Option Registration) (operation : Operation) (msg : Message)
    (fieldName item : PyStr) (write : Bool) (t : PyStr) (rec : Registration) (e : SecretEntry) :
    Prop where
  tool : field msg "toolid" = some t
  registered : reg t = some rec
  esecret : field msg "esecret" = some rec.esecret
  declared : e ∈ rec.secretEntries
  name : operation ≠ .getSecrets → field msg "name" = some e.name
  sameField : fieldName = e.field
  item : item = e.target t
  writable : write = true → e.writable = true

/-! ## The handlers -/

theorem run_check_bind {α β : Type} (x : Except Failure α) (f : α → Prog Op Op.Ret Failure β)
    (w : World σ) : (check x >>= f).run (World.exec plugin) w = match x with
      | .ok a => (f a).run (World.exec plugin) w
      | .error e => ⟨.error e, w, []⟩ := by
  cases x <;> rfl

theorem field_of_require {key : String} {v : PyStr} (h : requireField msg key = .ok v) :
    field msg key = some v := by
  unfold requireField at h
  split at h
  · rename_i v' hv
    obtain rfl := Except.ok.inj h
    exact hv
  · cases h

theorem constantTimeEq_eq {a b : PyStr} (h : constantTimeEq a b = true) : a = b := by
  simp only [constantTimeEq, Bool.and_eq_true, decide_eq_true_eq] at h
  exact h.2

/-- A run that leaves the registrations alone and asks the plugin for nothing it may not. -/
structure Proper (reg : PyStr → Option Registration) (operation : Operation) (msg : Message)
    {α : Type} (r : Interleave.Ran Op Op.Ret Failure α (World σ)) : Prop where
  pool : r.world.pool = reg
  backed : ∀ c ∈ r.calls, ∀ fieldName item write, c.1.access = some (fieldName, item, write) →
    ∃ t rec e, Backed reg operation msg fieldName item write t rec e

namespace Proper
variable {α : Type}

theorem stop (e : Failure) : Proper w.pool operation msg
    (⟨.error e, w, []⟩ : Interleave.Ran Op Op.Ret Failure α (World σ)) :=
  ⟨rfl, by simp⟩

theorem done (a : α) : Proper w.pool operation msg
    (⟨.ok a, w, []⟩ : Interleave.Ran Op Op.Ret Failure α (World σ)) :=
  ⟨rfl, by simp⟩

theorem check {β : Type} {x : Except Failure α} {f : α → Prog Op Op.Ret Failure β}
    (h : ∀ a, x = .ok a → Proper w.pool operation msg ((f a).run (World.exec plugin) w)) :
    Proper w.pool operation msg ((check x >>= f).run (World.exec plugin) w) := by
  rw [run_check_bind]
  cases hx : x with
  | ok a => exact h a hx
  | error e => exact stop e

/-- One more call in front. -/
theorem call {o : Op} {f : o.Ret → Prog Op Op.Ret Failure α}
    (hpool : (World.exec plugin o w).2.pool = w.pool)
    (haccess : ∀ fieldName item write, o.access = some (fieldName, item, write) →
      ∃ t rec e, Backed w.pool operation msg fieldName item write t rec e)
    (h : Proper (World.exec plugin o w).2.pool operation msg
      ((f (World.exec plugin o w).1).run (World.exec plugin) (World.exec plugin o w).2)) :
    Proper w.pool operation msg ((perform o >>= f).run (World.exec plugin) w) := by
  rw [hpool] at h
  refine ⟨h.pool, fun c hc => ?_⟩
  rcases List.mem_cons.1 hc with rfl | hmem
  · exact haccess
  · exact h.backed c hmem

/-- Past the check of the tool's secret, the registration is the one that has it. -/
theorem checkEs {t : PyStr} {f : Registration → Prog Op Op.Ret Failure α}
    (h : ∀ rec, w.pool t = some rec → field msg "esecret" = some rec.esecret →
      Proper w.pool operation msg ((f rec).run (World.exec plugin) w)) :
    Proper w.pool operation msg ((Sps.checkEs t msg >>= f).run (World.exec plugin) w) := by
  unfold Sps.checkEs
  cases hval : field msg "esecret" with
  | none => exact stop _
  | some val =>
    refine call rfl (fun _ _ _ h => by cases h) ?_
    change Proper w.pool operation msg ((checkFound val (w.pool t) >>= f).run (World.exec plugin) w)
    cases hrec : w.pool t with
    | none => exact stop _
    | some rec =>
      unfold checkFound
      by_cases heq : constantTimeEq val rec.esecret = true
      · simp only [heq, if_true]
        exact h rec hrec (hval.trans (congrArg some (constantTimeEq_eq heq)))
      · simp only [heq, Bool.false_eq_true, if_false]
        exact stop _

end Proper

theorem readEntries_proper {t : PyStr} {rec : Registration} (htool : field msg "toolid" = some t)
    (hes : field msg "esecret" = some rec.esecret) (es : List SecretEntry)
    (hes' : ∀ e ∈ es, e ∈ rec.secretEntries) (body : List (PyStr × PyStr)) (w : World σ)
    (hrec : w.pool t = some rec) :
    Proper w.pool .getSecrets msg ((readEntries t es body).run (World.exec plugin) w) := by
  induction es generalizing body w with
  | nil => exact .done body
  | cons e es ih =>
    refine .call rfl ?_ ?_
    · intro fieldName item write haccess
      obtain ⟨rfl, rfl, rfl⟩ : e.field = fieldName ∧ e.target t = item ∧ false = write := by
        simpa [Op.access] using haccess
      exact ⟨t, rec, e, htool, hrec, hes, hes' e (List.mem_cons_self ..), fun h => absurd rfl h, rfl,
        rfl, fun h => by cases h⟩
    · split
      · exact .stop _
      · exact ih (fun e' he' => hes' e' (List.mem_cons_of_mem _ he')) _ _ hrec

theorem handleGetSecrets_proper :
    Proper w.pool .getSecrets msg ((handleGetSecrets msg).run (World.exec plugin) w) := by
  refine .check fun t ht => .checkEs fun rec hrec hes => ?_
  have hread : Proper w.pool .getSecrets msg
      ((readEntries t rec.secretEntries []).run (World.exec plugin) w) :=
    readEntries_proper (field_of_require ht) hes rec.secretEntries (fun _ h => h) [] w hrec
  rw [Prog.run_bind]
  split
  · exact ⟨hread.pool, by simpa using hread.backed⟩
  · exact ⟨hread.pool, hread.backed⟩

/-- The entry a request names is declared under this name. -/
theorem Registration.entry_some {rec : Registration} {name : PyStr} {e : SecretEntry}
    (h : rec.entry name = some e) : e ∈ rec.secretEntries ∧ e.name = name :=
  ⟨List.mem_of_find?_eq_some h, by simpa using List.find?_some h⟩

theorem handleGetSecret_proper :
    Proper w.pool .getSecret msg ((handleGetSecret msg).run (World.exec plugin) w) := by
  refine .check fun t ht => .check fun name hname => .checkEs fun rec hrec hes => ?_
  cases hentry : rec.entry name with
  | none => exact .stop _
  | some e =>
    obtain ⟨hmem, rfl⟩ := Registration.entry_some hentry
    refine .call rfl ?_ ?_
    · intro fieldName item write haccess
      obtain ⟨rfl, rfl, rfl⟩ : e.field = fieldName ∧ e.target t = item ∧ false = write := by
        simpa [Op.access] using haccess
      exact ⟨t, rec, e, field_of_require ht, hrec, hes, hmem, fun _ => field_of_require hname, rfl,
        rfl, fun h => by cases h⟩
    · split
      · exact .stop _
      · exact .done _

theorem handleWriteSecret_proper :
    Proper w.pool .writeSecret msg ((handleWriteSecret cfg msg).run (World.exec plugin) w) := by
  refine .check fun t ht => .check fun name hname => .checkEs fun rec hrec hes => ?_
  cases hentry : rec.entry name with
  | none => exact .stop _
  | some e =>
    obtain ⟨hmem, rfl⟩ := Registration.entry_some hentry
    simp only
    split_ifs with hwritable
    · exact .stop _
    · split
      · split_ifs
        · exact .stop _
        · refine .call rfl ?_ ?_
          · intro fieldName item write haccess
            obtain ⟨rfl, rfl, rfl⟩ : e.field = fieldName ∧ e.target t = item ∧ true = write := by
              simpa [Op.access] using haccess
            exact ⟨t, rec, e, field_of_require ht, hrec, hes, hmem, fun _ => field_of_require hname,
              rfl, rfl, fun _ => by simpa using hwritable⟩
          · split
            · exact .stop _
            · exact .done _
      · exact .stop _

/-! ## Registrations -/

/-- What registering checks of the declared entries. -/
structure Registration.Admitted (cfg : Config) (t : PyStr) (rec : Registration) : Prop where
  names : (rec.secretEntries.map (·.name)).Nodup
  granted : ∀ e ∈ rec.secretEntries, granted cfg t e = true

theorem parseEntry_name {names : List PyStr} {j : Json} {e : SecretEntry}
    (h : parseEntry names j = .ok e) : e.name ∉ names := by
  cases j with
  | obj kvs =>
    simp only [parseEntry, bind, Except.bind] at h
    split at h
    · cases h
    · rename_i name _
      split_ifs at h with hmem
      simp only [pure, Except.pure] at h
      split at h
      · cases h
      · split at h
        · cases h
        · split at h
          · cases h
          · obtain rfl := Except.ok.inj h
            exact hmem
  | _ => cases h

theorem parseEntries_names {js : List Json} {names : List PyStr} {es : List SecretEntry}
    (h : parseEntries names js = .ok es) :
    (es.map (·.name)).Nodup ∧ ∀ e ∈ es, e.name ∉ names := by
  induction js generalizing names es with
  | nil =>
    obtain rfl := Except.ok.inj h
    simp
  | cons j js ih =>
    simp only [parseEntries, bind, Except.bind] at h
    split at h
    · cases h
    · rename_i e he
      split at h
      · cases h
      · rename_i es' hes
        obtain rfl := Except.ok.inj h
        obtain ⟨hnodup, hnot⟩ := ih hes
        refine ⟨List.nodup_cons.2 ⟨fun hmem => ?_, hnodup⟩, fun e' he' => ?_⟩
        · obtain ⟨e', he', heq⟩ := List.mem_map.1 hmem
          exact hnot e' he' (by simp [heq])
        · rcases List.mem_cons.1 he' with rfl | hmem
          · exact parseEntry_name he
          · exact fun hin => hnot e' hmem (List.mem_cons_of_mem _ hin)

theorem parseCsTuples_names {j : Option Json} {es : List SecretEntry}
    (h : parseCsTuples j = .ok es) : (es.map (·.name)).Nodup := by
  unfold parseCsTuples at h
  split at h
  · exact (parseEntries_names h).1
  · cases h

theorem parseRegistration_ok {t : PyStr} {rec : Registration}
    (h : parseRegistration cfg msg = .ok (t, rec)) :
    field msg "toolid" = some t ∧ parseEsecret msg = .ok rec.esecret ∧
      parseCsTuples (Json.find? msg (py "secrets")) = .ok rec.secretEntries ∧ rec.Admitted cfg t := by
  simp only [parseRegistration, bind, Except.bind] at h
  split at h
  · cases h
  · split at h
    · cases h
    · rename_i t' ht
      split at h
      · cases h
      · rename_i esecret hes
        split at h
        · cases h
        · rename_i entries hentries
          split_ifs at h with hany
          obtain ⟨rfl, rfl⟩ := Prod.mk.inj (Except.ok.inj h)
          exact ⟨field_of_require ht, hes, hentries, parseCsTuples_names hentries,
            by simpa using hany⟩

theorem parseUnregistration_ok {t : PyStr} (h : parseUnregistration cfg msg = .ok t) :
    field msg "toolid" = some t := by
  simp only [parseUnregistration, bind, Except.bind] at h
  split at h
  · cases h
  · exact field_of_require h

/-! ## All values or none -/

theorem put_new {body : List (PyStr × PyStr)} {k v : PyStr} (h : k ∉ body.map Prod.fst) :
    put body k v = body ++ [(k, v)] := by
  have hany : body.any (fun kv => kv.1 = k) = false := by
    rw [List.any_eq_false]
    rintro ⟨k', v'⟩ hmem heq
    obtain rfl : k' = k := of_decide_eq_true heq
    exact h (List.mem_map_of_mem hmem)
  rw [put, hany]
  rfl

/-- Entries with names of their own are all read, each from the plugin. -/
theorem readEntries_ok {t : PyStr} (es : List SecretEntry) (hnodup : (es.map (·.name)).Nodup)
    (body : List (PyStr × PyStr)) (hnew : ∀ e ∈ es, e.name ∉ body.map Prod.fst) (w : World σ)
    {body' : List (PyStr × PyStr)}
    (h : ((readEntries t es body).run (World.exec plugin) w).result = .ok body') :
    ∃ value : SecretEntry → PyStr, body' = body ++ es.map (fun e => (e.name, value e)) ∧
      ∀ e ∈ es, (⟨.getSecret e.field (e.target t), .ok (value e)⟩ : Answered Op Op.Ret) ∈
        ((readEntries t es body).run (World.exec plugin) w).calls := by
  induction es generalizing body w with
  | nil =>
    obtain rfl := Except.ok.inj h
    exact ⟨fun _ => [], by simp, by simp⟩
  | cons e es ih =>
    rw [readEntries, Prog.run_perform_bind] at h ⊢
    obtain ⟨hout, hnodup⟩ := List.nodup_cons.1 hnodup
    have hne : ∀ e' ∈ es, e'.name ≠ e.name := fun e' he' heq =>
      hout (List.mem_map.2 ⟨e', he', heq⟩)
    cases hread : (plugin.getSecret e.field (e.target t) w.backend).1 with
    | error u => simp [World.exec, hread] at h
    | ok v =>
      simp only [World.exec, hread] at h ⊢
      rw [put_new (hnew e (List.mem_cons_self ..))] at h ⊢
      have hnew' : ∀ e' ∈ es, e'.name ∉ (body ++ [(e.name, v)]).map Prod.fst := by
        intro e' he' hin
        rw [List.map_append, List.mem_append] at hin
        rcases hin with hin | hin
        · exact hnew e' (List.mem_cons_of_mem _ he') hin
        · have heq : e'.name = e.name := by simpa using hin
          exact hne e' he' heq
      obtain ⟨value, hbody, hcalls⟩ := ih hnodup _ hnew' _ h
      refine ⟨fun e' => if e'.name = e.name then v else value e', ?_, fun e' he' => ?_⟩
      · have htail : es.map (fun e' => (e'.name, if e'.name = e.name then v else value e')) =
            es.map fun e' => (e'.name, value e') :=
          List.map_congr_left fun e' he' => by rw [if_neg (hne e' he')]
        rw [hbody, List.map_cons, htail, List.append_assoc]
        simp
      · rcases List.mem_cons.1 he' with rfl | hmem
        · exact List.mem_cons.2 (.inl (by simp))
        · have hcall := hcalls e' hmem
          simp only [if_neg (hne e' hmem)]
          exact List.mem_cons_of_mem _ hcall

/-! ## Runs of the server -/

/-- What the server keeps: the pool is what the history says, and holds nothing that was not
admitted. -/
structure Server.Consistent (cfg : Config) (s : Server σ) : Prop where
  pool : s.world.pool = fun t => latest t s.history
  admitted : ∀ t rec, s.world.pool t = some rec → rec.Admitted cfg t

/-- A handler's run, and what it makes of the pool. -/
structure Handled (cfg : Config) (w : World σ) (served : Served) (w' : World σ) : Prop where
  pool : ∀ t, w'.pool t = ((served.settles t).getD (w.pool t))
  admitted : ∀ t rec, served.settles t = some (some rec) → rec.Admitted cfg t
  backed : ∀ c ∈ served.calls, ∀ fieldName item write,
    c.1.access = some (fieldName, item, write) →
    ∃ t rec e, Backed w.pool served.operation served.message fieldName item write t rec e

variable {response : Response}

/-- A handler that does not touch the pool. -/
theorem Proper.handled {r : Interleave.Ran Op Op.Ret Failure Reply (World σ)}
    (h : Proper w.pool operation msg r) (hreg : operation ≠ .register)
    (hunreg : operation ≠ .unregister) :
    Handled cfg w ⟨operation, msg, r.result, r.calls, response⟩ r.world := by
  have hnone : ∀ t, Served.settles t ⟨operation, msg, r.result, r.calls, response⟩ = none := by
    intro t
    unfold Served.settles
    split
    · split_ifs
      · split <;> simp_all
      · rfl
    · rfl
  exact ⟨fun t => by rw [hnone, h.pool]; rfl, fun t rec hset => (by simp [hnone] at hset),
    h.backed⟩

theorem handleRegister_handled :
    Handled cfg w ⟨.register, msg, ((handleRegister cfg msg).run (World.exec plugin) w).result,
      ((handleRegister cfg msg).run (World.exec plugin) w).calls, response⟩
      ((handleRegister cfg msg).run (World.exec plugin) w).world := by
  unfold handleRegister
  rw [run_check_bind]
  cases hparse : parseRegistration cfg msg with
  | error e => exact ⟨fun _ => rfl, fun _ _ h => by simp [Served.settles] at h, by simp⟩
  | ok p =>
    obtain ⟨t, rec⟩ := p
    obtain ⟨htool, hes, hentries, hadm⟩ := parseRegistration_ok hparse
    have hset : ∀ calls t', Served.settles t' ⟨.register, msg, .ok .ok, calls, response⟩ =
        if t = t' then some (some rec) else none := by
      intro calls t'
      simp only [Served.settles, htool, hes, hentries]
    refine ⟨fun t' => ?_, fun t' rec' h => ?_, fun c hc => ?_⟩
    · refine Eq.trans ?_ (congrArg (Option.getD · (w.pool t')) (hset _ t').symm)
      change (if t' = t then some rec else w.pool t') = _
      by_cases heq : t' = t
      · simp [heq]
      · simp [heq, Ne.symm heq]
    · have h' := (hset _ t').symm.trans h
      split_ifs at h' with heq
      rw [← heq, ← Option.some.inj (Option.some.inj h')]
      exact hadm
    · obtain rfl := List.mem_singleton.1 hc
      intro fieldName item write haccess
      cases haccess

theorem handleUnregister_handled :
    Handled cfg w ⟨.unregister, msg, ((handleUnregister cfg msg).run (World.exec plugin) w).result,
      ((handleUnregister cfg msg).run (World.exec plugin) w).calls, response⟩
      ((handleUnregister cfg msg).run (World.exec plugin) w).world := by
  unfold handleUnregister
  rw [run_check_bind]
  cases hparse : parseUnregistration cfg msg with
  | error e => exact ⟨fun _ => rfl, fun _ _ h => by simp [Served.settles] at h, by simp⟩
  | ok t =>
    have htool := parseUnregistration_ok hparse
    have hset : ∀ calls t', Served.settles t' ⟨.unregister, msg, .ok .ok, calls, response⟩ =
        if t = t' then some none else none := by
      intro calls t'
      simp only [Served.settles, htool]
    refine ⟨fun t' => ?_, fun t' rec' h => ?_, fun c hc => ?_⟩
    · refine Eq.trans ?_ (congrArg (Option.getD · (w.pool t')) (hset _ t').symm)
      change (if t' = t then none else w.pool t') = _
      by_cases heq : t' = t
      · simp [heq]
      · simp [heq, Ne.symm heq]
    · have h' := (hset _ t').symm.trans h
      split_ifs at h'
      cases Option.some.inj h'
    · obtain rfl := List.mem_singleton.1 hc
      intro fieldName item write haccess
      cases haccess

theorem handler_handled (operation : Operation) :
    Handled cfg w ⟨operation, msg, ((handler cfg msg operation).run (World.exec plugin) w).result,
      ((handler cfg msg operation).run (World.exec plugin) w).calls, response⟩
      ((handler cfg msg operation).run (World.exec plugin) w).world := by
  cases operation with
  | ping => exact (Proper.done Reply.ok).handled (by decide) (by decide)
  | register => exact handleRegister_handled
  | unregister => exact handleUnregister_handled
  | getSecrets => exact handleGetSecrets_proper.handled (by decide) (by decide)
  | getSecret => exact handleGetSecret_proper.handled (by decide) (by decide)
  | writeSecret => exact handleWriteSecret_proper.handled (by decide) (by decide)

theorem latest_cons (t : PyStr) (served : Served) (history : List Served) :
    latest t (served :: history) = (served.settles t).getD (latest t history) := by
  unfold latest
  rw [List.findSome?_cons]
  cases served.settles t <;> rfl

theorem Server.handle_consistent {s : Server σ} {r : Request} (h : s.Consistent cfg) :
    (s.handle cfg plugin r).Consistent cfg := by
  unfold Server.handle
  split
  · rename_i msg operation _ _
    have hrun : Handled cfg s.world
        ⟨operation, msg, ((handler cfg msg operation).run (World.exec plugin) s.world).result,
          ((handler cfg msg operation).run (World.exec plugin) s.world).calls,
          audited r.auditFails operation msg
            ((handler cfg msg operation).run (World.exec plugin) s.world).result⟩
        ((handler cfg msg operation).run (World.exec plugin) s.world).world :=
      handler_handled operation
    refine ⟨funext fun t => ?_, fun t rec hrec => ?_⟩
    · exact (hrun.pool t).trans (by rw [latest_cons, h.pool])
    · rw [hrun.pool t] at hrec
      cases hset : Served.settles t _ with
      | none =>
        rw [hset] at hrec
        exact h.admitted t rec hrec
      | some reg =>
        rw [hset] at hrec
        obtain rfl : reg = some rec := hrec
        exact hrun.admitted t rec hset
  · exact h

/-- What is promised about one served request, given what was served before it. -/
structure Served.Lawful (cfg : Config) (served : Served) (earlier : List Served) : Prop where
  backed : ∀ c ∈ served.calls, ∀ fieldName item write,
    c.1.access = some (fieldName, item, write) →
    ∃ t rec e, Backed (fun t => latest t earlier) served.operation served.message fieldName item
      write t rec e ∧ (item = t ∨ item ∈ cfg.grants t)
  complete : served.operation = .getSecrets →
    (∃ message, served.response = .error message) ∨
    ∃ t rec, ∃ value : SecretEntry → PyStr, field served.message "toolid" = some t ∧
      latest t earlier = some rec ∧
      served.response = .reply (.secrets (rec.secretEntries.map fun e => (e.name, value e))) ∧
      ∀ e ∈ rec.secretEntries, (⟨.getSecret e.field (e.target t), .ok (value e)⟩ :
        Answered Op Op.Ret) ∈ served.calls

theorem granted_target {t : PyStr} {e : SecretEntry} (h : granted cfg t e = true) :
    e.target t = t ∨ e.target t ∈ cfg.grants t := by
  obtain ⟨name, fieldName, item, writable⟩ := e
  match item, h with
  | none, _ | some [], _ => exact .inl rfl
  | some (c :: s), h =>
    simp only [granted, SecretEntry.target, Bool.or_eq_true, Option.any_some,
      List.contains_iff_mem] at h
    exact h.imp of_decide_eq_true id

/-- Past the check of the secret, a run is that of its continuation. -/
theorem checkEs_bind_ok {α : Type} {t : PyStr} {f : Registration → Prog Op Op.Ret Failure α} {a : α}
    (h : ((checkEs t msg >>= f).run (World.exec plugin) w).result = .ok a) :
    ∃ rec, w.pool t = some rec ∧ ((f rec).run (World.exec plugin) w).result = .ok a ∧
      ∀ c ∈ ((f rec).run (World.exec plugin) w).calls,
        c ∈ ((checkEs t msg >>= f).run (World.exec plugin) w).calls := by
  unfold checkEs at h ⊢
  cases hval : field msg "esecret" with
  | none => simp [hval] at h
  | some val =>
    simp only [hval] at h ⊢
    change ((checkFound val (w.pool t) >>= f).run (World.exec plugin) w).result = .ok a at h
    change ∃ rec, _ ∧ _ ∧ ∀ c ∈ _, c ∈ (_ :: ((checkFound val (w.pool t) >>= f).run
      (World.exec plugin) w).calls)
    cases hrec : w.pool t with
    | none => simp [hrec, checkFound] at h
    | some rec =>
      rw [hrec] at h
      simp only [checkFound] at h ⊢
      split_ifs at h ⊢ with heq
      · exact ⟨rec, rfl, h, fun c hc => List.mem_cons_of_mem _ hc⟩
      · cases h

theorem handleGetSecrets_ok (hadm : ∀ t rec, w.pool t = some rec → rec.Admitted cfg t) {r : Reply}
    (h : ((handleGetSecrets msg).run (World.exec plugin) w).result = .ok r) :
    ∃ t rec, ∃ value : SecretEntry → PyStr, field msg "toolid" = some t ∧ w.pool t = some rec ∧
      r = .secrets (rec.secretEntries.map fun e => (e.name, value e)) ∧
      ∀ e ∈ rec.secretEntries, (⟨.getSecret e.field (e.target t), .ok (value e)⟩ :
        Answered Op Op.Ret) ∈ ((handleGetSecrets msg).run (World.exec plugin) w).calls := by
  unfold handleGetSecrets at h ⊢
  rw [run_check_bind] at h ⊢
  cases htool : requireField msg "toolid" with
  | error e => simp [htool] at h
  | ok t =>
    simp only [htool] at h ⊢
    obtain ⟨rec, hrec, hread, hcalls⟩ := checkEs_bind_ok h
    rw [Prog.run_bind] at hread hcalls
    cases hbody : ((readEntries t rec.secretEntries []).run (World.exec plugin) w).result with
    | error e => simp [hbody] at hread
    | ok body =>
      simp only [hbody] at hread hcalls
      obtain ⟨value, rfl, hvalue⟩ := readEntries_ok rec.secretEntries (hadm t rec hrec).names []
        (by simp) w hbody
      refine ⟨t, rec, value, field_of_require htool, hrec, (Except.ok.inj hread).symm, fun e he => ?_⟩
      exact hcalls _ (List.mem_append_left _ (hvalue e he))

/-- A reply is withheld or is what the handler returned. -/
theorem audited_cases (auditFails : Bool) (operation : Operation) (msg : Message)
    (r : Except Failure Reply) :
    (∃ message, audited auditFails operation msg r = .error message) ∨
      ∃ a, r = .ok a ∧ audited auditFails operation msg r = .reply a := by
  cases r with
  | error e =>
    refine .inl ?_
    unfold audited
    split
    · exact ⟨_, rfl⟩
    · exact ⟨_, rfl⟩
    · exact ⟨_, rfl⟩
    · split_ifs <;> exact ⟨_, rfl⟩
  | ok a =>
    unfold audited
    split
    · exact .inr ⟨a, rfl, rfl⟩
    · rename_i heq
      cases heq
    · rename_i heq
      cases heq
    · split_ifs
      · exact .inl ⟨_, rfl⟩
      · exact .inr ⟨a, rfl, rfl⟩

theorem Server.handle_lawful {s : Server σ} {r : Request} (h : s.Consistent cfg) {served : Served}
    (hnew : (s.handle cfg plugin r).history = served :: s.history) :
    served.Lawful cfg s.history := by
  unfold Server.handle at hnew
  split at hnew
  · rename_i msg operation _ _
    obtain rfl := (List.cons.inj hnew).1
    have hrun : Handled cfg s.world
        ⟨operation, msg, ((handler cfg msg operation).run (World.exec plugin) s.world).result,
          ((handler cfg msg operation).run (World.exec plugin) s.world).calls,
          audited r.auditFails operation msg
            ((handler cfg msg operation).run (World.exec plugin) s.world).result⟩
        ((handler cfg msg operation).run (World.exec plugin) s.world).world :=
      handler_handled operation
    refine ⟨fun c hc fieldName item write haccess => ?_, fun hop => ?_⟩
    · obtain ⟨t, rec, e, hbacked⟩ := hrun.backed c hc fieldName item write haccess
      have hgranted := granted_target ((h.admitted t rec hbacked.registered).granted e
        hbacked.declared)
      rw [← hbacked.item] at hgranted
      exact ⟨t, rec, e, h.pool ▸ hbacked, hgranted⟩
    · obtain rfl : operation = .getSecrets := hop
      rcases audited_cases r.auditFails .getSecrets msg
        ((handler cfg msg .getSecrets).run (World.exec plugin) s.world).result with
        hwithheld | ⟨a, hres, hreply⟩
      · exact .inl hwithheld
      · obtain ⟨t, rec, value, htool, hrec, rfl, hcalls⟩ := handleGetSecrets_ok h.admitted hres
        rw [h.pool] at hrec
        exact .inr ⟨t, rec, value, htool, hrec, hreply, hcalls⟩
  · simp at hnew

theorem Server.handle_history (s : Server σ) (r : Request) :
    (s.handle cfg plugin r).history = s.history ∨
      ∃ served, (s.handle cfg plugin r).history = served :: s.history := by
  unfold Server.handle
  split
  · exact .inr ⟨_, rfl⟩
  · exact .inl rfl

/-- Every request of a history is lawful, given what was served before it. -/
def LawfulHistory (cfg : Config) (history : List Served) : Prop :=
  ∀ later served earlier, history = later ++ served :: earlier → served.Lawful cfg earlier

theorem LawfulHistory.cons {served : Served} {history : List Served} (hs : served.Lawful cfg history)
    (h : LawfulHistory cfg history) : LawfulHistory cfg (served :: history) := by
  intro later served' earlier heq
  cases later with
  | nil =>
    obtain ⟨rfl, rfl⟩ := List.cons.inj heq
    exact hs
  | cons x later => exact h later served' earlier (List.cons.inj heq).2

theorem Server.handleAll_lawful (rs : List Request) {s : Server σ} (hs : s.Consistent cfg)
    (h : LawfulHistory cfg s.history) : LawfulHistory cfg (s.handleAll cfg plugin rs).history := by
  induction rs generalizing s with
  | nil => exact h
  | cons r rs ih =>
    refine ih (Server.handle_consistent hs) ?_
    rcases (Server.handle_history s r : (s.handle cfg plugin r).history = s.history ∨ _) with
      hsame | ⟨served, hnew⟩
    · rw [hsame]
      exact h
    · rw [hnew]
      exact .cons (Server.handle_lawful hs hnew) h

theorem Server.start_consistent (backend : σ) : (Server.start backend).Consistent cfg :=
  ⟨rfl, fun _ _ h => by cases h⟩

/-- Whatever is asked of the server, in whatever order: the backend is only called for an entry
the latest registration of the tool declares, by one who presents its secret, for the tool's own
item or a granted one, and written only where the entry is writable; a registration replaces the
one before it and an unregistration ends it; and values are handed out all together or not at
all. -/
theorem secrets_authorised (cfg : Config) (plugin : Plugin σ) (backend : σ) (rs : List Request)
    (later : List Served) (served : Served) (earlier : List Served)
    (h : ((Server.start backend).handleAll cfg plugin rs).history = later ++ served :: earlier) :
    (∀ c ∈ served.calls, ∀ fieldName item write,
      c.1.access = some (fieldName, item, write) →
      ∃ t rec e, field served.message "toolid" = some t ∧ latest t earlier = some rec ∧
        field served.message "esecret" = some rec.esecret ∧ e ∈ rec.secretEntries ∧
        (served.operation ≠ .getSecrets → field served.message "name" = some e.name) ∧
        fieldName = e.field ∧ item = e.target t ∧ (item = t ∨ item ∈ cfg.grants t) ∧
        (write = true → e.writable = true)) ∧
    (∀ t reg, served.settles t = some reg → latest t (served :: earlier) = reg) ∧
    (served.operation = .getSecrets →
      (∃ message, served.response = .error message) ∨
      ∃ t rec, ∃ value : SecretEntry → PyStr, field served.message "toolid" = some t ∧
        latest t earlier = some rec ∧
        served.response = .reply (.secrets (rec.secretEntries.map fun e => (e.name, value e))) ∧
        ∀ e ∈ rec.secretEntries, (⟨.getSecret e.field (e.target t), .ok (value e)⟩ :
          Answered Op Op.Ret) ∈ served.calls) := by
  have hall : LawfulHistory cfg ((Server.start backend).handleAll cfg plugin rs).history :=
    Server.handleAll_lawful rs (Server.start_consistent backend) fun l s e heq => by
      simp [Server.start] at heq
  have hlawful := hall later served earlier h
  refine ⟨fun c hc fieldName item write haccess => ?_, fun t reg hset => ?_, hlawful.complete⟩
  · obtain ⟨t, rec, e, hb, hgranted⟩ := hlawful.backed c hc fieldName item write haccess
    exact ⟨t, rec, e, hb.tool, hb.registered, hb.esecret, hb.declared, hb.name, hb.sameField, hb.item,
      hgranted, hb.writable⟩
  · rw [latest_cons, hset]
    rfl

namespace Sample

def config : Config := { spSecret := py "sp", grants := fun _ => [], spMaxValueBytes := 64 }

def backend : Plugin Unit where
  getSecret _ _ u := (.ok (py "v"), u)
  writeSecret _ _ _ u := (.ok (), u)

def esecret : Json := .str (py "00000000000000000000000000000000")

/-- A tool is registered with one entry, and reads it. -/
def requests : List Request :=
  [⟨some [(py "op", .str (py "register")), (py "spsecret", .str (py "sp")),
      (py "toolid", .str (py "echo")), (py "esecret", esecret),
      (py "secrets", .arr [.obj [(py "name", .str (py "key")), (py "field", .str (py "f"))]])], false⟩,
    ⟨some [(py "op", .str (py "get_secret")), (py "toolid", .str (py "echo")),
      (py "name", .str (py "key")), (py "esecret", esecret)], false⟩]

def served : List Served := ((Server.start ()).handleAll config backend requests).history

end Sample

theorem secrets_authorised_read : ∃ read register, Sample.served = [read, register] ∧
    read.calls.length = 2 ∧ ∀ c ∈ read.calls, ∀ fieldName item write,
      c.1.access = some (fieldName, item, write) →
      ∃ t rec, latest t [register] = some rec ∧ field read.message "esecret" = some rec.esecret := by
  have hlen : Sample.served.map (fun s => s.calls.length) = [2, 1] := by decide +kernel
  obtain ⟨read, rest, hserved, hread, hrest⟩ := List.map_eq_cons_iff.1 hlen
  obtain ⟨register, nothing, rfl, -, hnil⟩ := List.map_eq_cons_iff.1 hrest
  obtain rfl := List.map_eq_nil_iff.1 hnil
  refine ⟨read, register, hserved, hread, fun c hc fieldName item write haccess => ?_⟩
  obtain ⟨t, rec, e, -, hrec, hes, -⟩ := (secrets_authorised Sample.config Sample.backend ()
    Sample.requests [] read [register] hserved).1 c hc fieldName item write haccess
  exact ⟨t, rec, hrec, hes⟩

end Toolstack.Sps
