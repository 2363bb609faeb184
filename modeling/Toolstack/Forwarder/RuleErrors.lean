import Toolstack.Forwarder.UpdateRules

/-! What the errors of the secret-update rules say: never a word of the response. -/

namespace Toolstack.Forwarder.Rules

open Url
open Fallible (Fails)

/-- What the errors of a rule say. -/
def details : List String :=
  ["invalid json", "json index not found", "json path not found", "json path did not yield a string",
    "xml attribute is empty", "invalid xml", "invalid xml path", "xml path not found", "xml attribute not found",
    "xml element has no text", "form field not found", "regex group not found",
    "extracted secret value exceeds 8KB"]

/-- An exception of the libraries on some input, or of Python's own on a number or a text. -/
def Raises (L : Libraries) (e : Exc) : Prop :=
  e.name ∈ [py "ValueError", py "AttributeError", py "UnicodeEncodeError"] ∨ (∃ s, L.loads s = .error e) ∨
    (∃ s, L.parseQs s = .error e) ∨ (∃ p s, L.search p s = .error e) ∨ (∃ s, L.fromstring s = .error e) ∨
    ∃ d p, L.findall d p = .error e

/-- The error names the rule and gives a fixed text, or the class of an exception. -/
structure Explains (L : Libraries) (rule : SecretUpdateRule) (e : RuleError) : Prop where
  code : e.code = "rule_extraction_failed"
  detail : (∃ s ∈ details, e.detail = py s) ∨ ∃ exc, Raises L exc ∧ e.detail = exc.name
  secret : e.secret = none ∨ e.secret = some rule.secretName

/-- As `Explains`, of an error that the application of the rules has not yet put in an envelope. -/
def Tells (L : Libraries) (rule : SecretUpdateRule) : Raised → Prop
  | .rule e => Explains L rule e
  | .exc e => Raises L e

variable {L : Libraries} {rule : SecretUpdateRule}

theorem tells_failed {detail : String} (h : detail ∈ details) {secret : Option PyStr}
    (hsecret : secret = none ∨ secret = some rule.secretName) : Tells L rule (.rule (failed detail secret)) :=
  ⟨rfl, .inl ⟨detail, h, rfl⟩, hsecret⟩

theorem fails_failed {α : Type} (detail : String) (h : detail ∈ details) {secret : Option PyStr}
    (hsecret : secret = none ∨ secret = some rule.secretName) :
    Fails (Tells L rule) (throw (.rule (failed detail secret)) : Extract α) := .error (tells_failed h hsecret)

theorem fails_call {α : Type} {x : Except Exc α} (h : Fails (Raises L) x) : Fails (Tells L rule) (call x) := by
  intro e he
  cases x with
  | ok a => cases he
  | error exc =>
    obtain rfl := Except.error.inj he
    exact h exc rfl

theorem fails_int (digits : PyStr) : Fails (Raises L) (int L digits) := by
  rw [int]
  split_ifs
  · exact .ok _
  · exact .error (.inl (List.mem_cons_self ..))

theorem fails_extractJsonStep (cur : Json) (part : PyStr) : Fails (Tells L rule) (extractJsonStep L cur part) := by
  have hpath : Fails (Tells L rule) (throw (.rule (failed "json path not found")) : Extract Json) :=
    fails_failed _ (by decide) (.inl rfl)
  unfold extractJsonStep
  cases cur with
  | arr xs =>
    dsimp only
    split_ifs
    · refine (fails_call (fails_int part)).bind fun idx => ?_
      split
      · exact .ok _
      · exact fails_failed _ (by decide) (.inl rfl)
    · exact hpath
  | obj kvs =>
    dsimp only
    split
    · exact .ok _
    · exact hpath
  | null | bool | int | float | str => exact hpath

theorem fails_extractJson (body path : PyStr) : Fails (Tells L rule) (extractJson L body path) := by
  unfold extractJson
  dsimp only
  split
  · refine (Fails.ok _).bind fun cur => ?_
    refine Fails.bind (.foldlM (fun cur part _ => fails_extractJsonStep cur part) cur) fun out => ?_
    split
    · exact .ok _
    · exact fails_failed _ (by decide) (.inl rfl)
  · exact .error (tells_failed (by decide) (.inl rfl))
  · rename_i e he
    exact .error (.inr (.inl ⟨body, he⟩))

theorem fails_extractXml (body path : PyStr) : Fails (Tells L rule) (extractXml L body path rule.secretName) := by
  have hraise : ∀ {e : Exc} {d : L.Document} {p : PyStr}, L.findall d p = .error e → Raises L e :=
    fun h => .inr (.inr (.inr (.inr (.inr ⟨_, _, h⟩))))
  unfold extractXml
  dsimp only
  split_ifs
  · exact .error (tells_failed (by decide) (.inr rfl))
  · split
    · refine (Fails.ok _).bind fun root => ?_
      split
      · refine (Fails.ok _).bind fun found => ?_
        split
        · split
          · split
            · exact .ok _
            · exact fails_failed _ (by decide) (.inr rfl)
          · split
            · exact .ok _
            · exact fails_failed _ (by decide) (.inr rfl)
        · exact fails_failed _ (by decide) (.inr rfl)
      · exact .error (tells_failed (by decide) (.inr rfl))
      · exact .error (tells_failed (by decide) (.inr rfl))
      · rename_i e _ _ he
        exact .error (hraise he)
    · exact .error (tells_failed (by decide) (.inr rfl))
    · rename_i e _ he
      exact .error (.inr (.inr (.inr (.inr (.inl ⟨body, he⟩)))))

theorem fails_extractValue (body : PyStr) : Fails (Tells L rule) (extractValue L rule body) := by
  unfold extractValue
  dsimp only
  split
  · exact (fails_extractJson body _).bind fun _ => .ok _
  · refine (fails_call fun e he => .inr (.inr (.inl ⟨body, he⟩))).bind fun values => ?_
    split
    · exact .ok _
    · exact fails_failed _ (by decide) (.inr rfl)
  · refine (fails_call fun e he => .inr (.inr (.inr (.inl ⟨_, _, he⟩)))).bind fun found => ?_
    split
    · exact .ok _
    · exact fails_failed _ (by decide) (.inr rfl)
  · exact fails_extractXml body _

theorem fails_bounded (value : Option PyStr) : Fails (Tells L rule) (bounded rule value) := by
  cases value with
  | none => exact .error (.inl (by simp [Exc.name]))
  | some value =>
    rw [bounded]
    cases encode value with
    | error e => exact .error (.inl (by simp [Exc.name]))
    | ok bytes =>
      dsimp only
      split_ifs
      · exact fails_failed _ (by decide) (.inr rfl)
      · exact .ok _

theorem fails_extractOne (body : PyStr) (rule : SecretUpdateRule) : Fails (Tells L rule) (extractOne L body rule) :=
  (fails_extractValue body).bind fails_bounded

end Toolstack.Forwarder.Rules
