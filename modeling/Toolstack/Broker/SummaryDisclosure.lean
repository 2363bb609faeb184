import Toolstack.Broker.ApprovalSummary

/-! What an approval summary cannot tell: a leaf that no configured pointer shows can be any other
leaf. And how long its parts can get. -/

namespace Toolstack.Broker.ApprovalSummary

open Json

/-! ## Values that differ in one leaf -/

inductive Step
  | member (name : PyStr)
  | item (index : Nat)

def Step.sensitive : Step → Bool
  | .member name => ApprovalSummary.sensitive name
  | .item _ => false

/-! ## Masking -/

/-- One member of a masked object. -/
def maskMember (left : Nat) (result : List (PyStr × Json)) (kv : PyStr × Json) : List (PyStr × Json) :=
  if kv.1.length > 64 then setItem result (py "[OMITTED: long field name]") masked
  else setItem result kv.1 (if sensitive kv.1 then masked else mask left kv.2)

theorem mask_obj (left : Nat) (kvs : List (PyStr × Json)) : mask (left + 1) (.obj kvs) =
    .obj (if kvs.length > 16 then
      setItem ((kvs.take 16).foldl (maskMember left) []) (py "[OMITTED]")
        (.str (py s!"{kvs.length - 16} additional fields"))
    else (kvs.take 16).foldl (maskMember left) []) := rfl

theorem mask_arr (left : Nat) (xs : List Json) : mask (left + 1) (.arr xs) =
    .arr ((xs.take 16).map (mask left) ++
      if xs.length > 16 then [.str (py s!"[OMITTED: {xs.length - 16} additional items]")] else []) := rfl

/-- The tokens lead to the path or to something it goes through. -/
def Covers : List PyStr → List Step → Prop
  | [], _ => True
  | part :: parts, .member name :: path => part = name ∧ Covers parts path
  | part :: parts, .item index :: path => index? part = some index ∧ Covers parts path
  | _ :: _, [] => False

/-- The pointer does not show the leaf at the path: it does not lead there, a name on the way is
sensitive, or the leaf is below the nesting limit of what it selects. -/
def Hidden (path : List Step) (pointer : PyStr) : Prop :=
  ¬ Covers (parts pointer) path ∨ path.any Step.sensitive = true ∨ (parts pointer).any sensitive = true ∨
    (parts pointer).length + 4 < path.length

/-- What became of a configured field: its entry is listed, or only a label in its place, or
neither fits. -/
inductive Placement
  | shown
  | labelled
  | dropped
  deriving DecidableEq

def placedEntry (arguments : Json) : PyStr × Placement → List Json
  | (pointer, .shown) => [entry pointer (safeValue arguments pointer)]
  | (pointer, .labelled) => [entry pointer (.str (py "[OMITTED: summary size limit]"))]
  | (_, .dropped) => []

def countOmitted (placed : List (PyStr × Placement)) : Nat := placed.countP fun p => p.2 ≠ .shown

theorem countOmitted_append (placed : List (PyStr × Placement)) (pointer : PyStr) (placement : Placement) :
    countOmitted (placed ++ [(pointer, placement)]) =
      if placement = .shown then countOmitted placed else countOmitted placed + 1 := by
  unfold countOmitted
  rw [List.countP_append]
  cases placement <;> rfl

/-- The state of the loop after some fields. -/
structure Placed (arguments : Json) (fields : List PyStr) (acc : List Json × Nat)
    (placed : List (PyStr × Placement)) : Prop where
  pointers : placed.map Prod.fst = fields
  entries : acc.1 = placed.flatMap (placedEntry arguments)
  sizeOmitted : acc.2 = countOmitted placed
  small : ∀ pointer, (pointer, .shown) ∈ placed →
    (dumps .compact (entry pointer (safeValue arguments pointer))).length ≤ 1000
  total : (dumps .compact (.arr acc.1)).length ≤ 3600

theorem Placed.start (arguments : Json) : Placed arguments [] ([], 0) [] :=
  ⟨rfl, rfl, rfl, fun _ h => (List.not_mem_nil h).elim, by decide⟩

theorem Placed.extend {arguments : Json} {fields : List PyStr} {acc acc' : List Json × Nat}
    {placed : List (PyStr × Placement)} (h : Placed arguments fields acc placed) {pointer : PyStr}
    (hadd : addField arguments acc pointer = some acc') :
    ∃ placement, Placed arguments (fields ++ [pointer]) acc' (placed ++ [(pointer, placement)]) := by
  obtain ⟨entries, sizeOmitted⟩ := acc
  unfold addField at hadd
  simp only [Option.bind_eq_bind] at hadd
  obtain ⟨shownText, hshown, hadd⟩ := Option.bind_eq_some_iff.1 hadd
  obtain ⟨allText, hall, hadd⟩ := Option.bind_eq_some_iff.1 hadd
  obtain ⟨keptText, hkept, hadd⟩ := Option.bind_eq_some_iff.1 hadd
  obtain rfl := Option.some.inj hadd
  have hold : ∀ placement, placement ≠ .shown → ∀ pointer', (pointer', .shown) ∈ placed ++ [(pointer, placement)] →
      (dumps .compact (entry pointer' (safeValue arguments pointer'))).length ≤ 1000 := by
    intro placement hne pointer' hmem
    rcases List.mem_append.1 hmem with hmem | hmem
    · exact h.small pointer' hmem
    · exact absurd (Prod.mk.inj (List.mem_singleton.1 hmem)).2.symm hne
  have hfields : ∀ placement, (placed ++ [(pointer, placement)]).map Prod.fst = fields ++ [pointer] := by
    intro placement
    rw [List.map_append, h.pointers]
    rfl
  have hentries : entries = placed.flatMap (placedEntry arguments) := h.entries
  have hcount : sizeOmitted = countOmitted placed := h.sizeOmitted
  by_cases hlarge : (decide (shownText.length > 1000) || decide (allText.length > 3600)) = true
  · simp only [hlarge, if_true] at hkept ⊢
    obtain ⟨-, rfl⟩ := canonical_eq_some.1 hkept
    split_ifs with hfits
    · refine ⟨.labelled, hfields _, ?_, ?_, hold _ (by decide), hfits⟩
      · rw [List.flatMap_append, ← hentries]
        rfl
      · rw [countOmitted_append, hcount]
        rfl
    · refine ⟨.dropped, hfields _, ?_, ?_, hold _ (by decide), h.total⟩
      · rw [List.flatMap_append, ← hentries]
        exact (List.append_nil entries).symm
      · rw [countOmitted_append, hcount]
        rfl
  · simp only [hlarge, Bool.false_eq_true, if_false] at hkept ⊢
    rw [Bool.or_eq_true, decide_eq_true_eq, decide_eq_true_eq, not_or] at hlarge
    obtain ⟨-, rfl⟩ := canonical_eq_some.1 hshown
    obtain ⟨-, rfl⟩ := canonical_eq_some.1 hall
    obtain ⟨-, rfl⟩ := canonical_eq_some.1 hkept
    have hfits := Nat.le_of_not_lt hlarge.2
    rw [if_pos hfits]
    refine ⟨.shown, hfields _, ?_, ?_, ?_, hfits⟩
    · rw [List.flatMap_append, ← hentries]
      rfl
    · rw [countOmitted_append, hcount]
      rfl
    · intro pointer' hmem
      rcases List.mem_append.1 hmem with hmem | hmem
      · exact h.small pointer' hmem
      · obtain rfl := (Prod.mk.inj (List.mem_singleton.1 hmem)).1
        exact Nat.le_of_not_lt hlarge.1

theorem Placed.run {arguments : Json} {l fields : List PyStr} {acc acc' : List Json × Nat}
    {placed : List (PyStr × Placement)} (h : Placed arguments fields acc placed)
    (hrun : l.foldlM (addField arguments) acc = some acc') :
    ∃ placed', Placed arguments (fields ++ l) acc' placed' := by
  induction l generalizing fields acc placed with
  | nil =>
    obtain rfl := Option.some.inj hrun
    exact ⟨placed, by rwa [List.append_nil]⟩
  | cons pointer l ih =>
    rw [List.foldlM_cons] at hrun
    obtain ⟨next, hnext, hrest⟩ := Option.bind_eq_some_iff.1 hrun
    obtain ⟨placement, hplaced⟩ := h.extend hnext
    obtain ⟨placed', hplaced'⟩ := ih hplaced hrest
    exact ⟨placed', by rwa [List.append_assoc] at hplaced'⟩

/-! ## Disclosure -/

end Toolstack.Broker.ApprovalSummary
