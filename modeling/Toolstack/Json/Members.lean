import Toolstack.Json.Order
import Toolstack.Json.Strings
import Toolstack.Json.Unambiguous

/-! Rendered objects and arrays, read part by part: two objects with one rendering have the same names,
and under each of them the same rendered value; two arrays of strings have the same strings. -/

namespace Toolstack.Json

/-! ## Joined lists -/

/-- What follows the first part of a joined list. -/
def joinTail (sep : Text) : List Text → Text
  | [] => []
  | x :: xs => sep ++ join sep (x :: xs)

theorem join_eq (sep x : Text) (xs : List Text) : join sep (x :: xs) = x ++ joinTail sep xs := by
  cases xs with
  | nil => exact (List.append_nil x).symm
  | cons y ys => rfl

/-- Parts whose texts end by themselves in front of a comma or a closing bracket, and begin with no
bracket that closes. -/
structure Parts {α : Type} (text : α → Text) (part : α → Prop) : Prop where
  ends : ∀ {a b s t}, part a → part b → Delimited s → Delimited t → text a ++ s = text b ++ t → a = b ∧ s = t
  opens : ∀ {a close s t}, part a → Delimited (close :: s) → text a ++ t ≠ close :: s

section
variable {α : Type} {text : α → Text} {part : α → Prop} {sep : Text} {close : Char} {s t : Text} {as bs : List α}

theorem delimited_tail (hclose : ∀ s, Delimited (close :: s)) (xs : List Text) (s : Text) :
    Delimited (joinTail (',' :: sep) xs ++ close :: s) := by
  cases xs with
  | nil => exact hclose s
  | cons x xs => trivial

/-- A joined list in front of the bracket that closes it. -/
theorem join_inj (hpart : Parts text part) (hclose : ∀ s, Delimited (close :: s)) (hcomma : close ≠ ',')
    (has : ∀ a ∈ as, part a) (hbs : ∀ b ∈ bs, part b)
    (h : join (',' :: sep) (as.map text) ++ close :: s = join (',' :: sep) (bs.map text) ++ close :: t) :
    as = bs := by
  induction as generalizing bs with
  | nil =>
    cases bs with
    | nil => rfl
    | cons b bs =>
      rw [List.map_cons, join_eq, List.append_assoc] at h
      exact absurd h.symm (hpart.opens (hbs b (List.mem_cons_self ..)) (hclose s))
  | cons a as ih =>
    cases bs with
    | nil =>
      rw [List.map_cons, join_eq, List.append_assoc] at h
      exact absurd h (hpart.opens (has a (List.mem_cons_self ..)) (hclose t))
    | cons b bs =>
      rw [List.map_cons, List.map_cons, join_eq, join_eq, List.append_assoc, List.append_assoc] at h
      obtain ⟨rfl, hrest⟩ := hpart.ends (has a (List.mem_cons_self ..)) (hbs b (List.mem_cons_self ..))
        (delimited_tail hclose _ s) (delimited_tail hclose _ t) h
      have has' : ∀ a ∈ as, part a := fun a ha => has a (List.mem_cons_of_mem _ ha)
      have hbs' : ∀ b ∈ bs, part b := fun b hb => hbs b (List.mem_cons_of_mem _ hb)
      -- what follows tells a list that goes on from one that is closed here
      rcases as with _ | ⟨a', as⟩ <;> rcases bs with _ | ⟨b', bs⟩
      · rfl
      · exact absurd (List.cons.inj hrest).1 hcomma
      · exact absurd (List.cons.inj hrest).1.symm hcomma
      · rw [List.map_cons, List.map_cons, joinTail, joinTail, List.append_assoc, List.append_assoc] at hrest
        rw [ih has' hbs' (List.append_cancel_left hrest)]

end

/-! ## Members -/

/-- What begins with a quotation mark begins with no closing bracket. -/
theorem quote_ne_close {k : PyStr} {close : Char} {s t : Text} (h : Delimited (close :: s)) :
    quote k ++ t ≠ close :: s := by
  intro heq
  obtain ⟨rfl, -⟩ := List.cons.inj (show '"' :: _ = close :: s from heq)
  exact h

/-- A member as it stands in a rendered object: its name is read back, and its text is a value's. -/
def Written (st : Style) (kv : PyStr × Text) : Prop :=
  (kv.1.all fun c => !highSurrogate c) = true ∧ ∃ v, kv.2 = dumps st v

theorem parts_member {st : Style} (hst : st.Clean) : Parts (member st) (Written st) where
  ends := by
    rintro ⟨k, text⟩ ⟨k', text'⟩ s t ⟨hk, v, hv⟩ ⟨hk', v', hv'⟩ hs ht heq
    simp only at hk hk' hv hv'
    subst hv hv'
    simp only [member, List.append_assoc] at heq
    obtain ⟨rfl, hafter⟩ := quote_append_inj hk hk' heq
    obtain ⟨hvalue, hrest⟩ := dumps_append_inj hst hs ht (List.append_cancel_left hafter)
    exact ⟨congrArg (Prod.mk k) hvalue, hrest⟩
  opens := by
    intro kv close s t _ hclose
    rw [member, List.append_assoc]
    exact quote_ne_close hclose

/-- Two objects with one sorted rendering have the same members, as far as they are rendered. -/
theorem members_of_dumps {kvs kvs' : List (PyStr × Json)}
    (hkvs : ∀ kv ∈ kvs, (kv.1.all fun c => !highSurrogate c) = true)
    (hkvs' : ∀ kv ∈ kvs', (kv.1.all fun c => !highSurrogate c) = true)
    (h : dumps .sorted (.obj kvs) = dumps .sorted (.obj kvs')) :
    sortMembers (kvs.map fun kv => (kv.1, dumps .sorted kv.2)) =
      sortMembers (kvs'.map fun kv => (kv.1, dumps .sorted kv.2)) := by
  have hwritten : ∀ {kvs : List (PyStr × Json)}, (∀ kv ∈ kvs, (kv.1.all fun c => !highSurrogate c) = true) →
      ∀ kv ∈ sortMembers (kvs.map fun kv => (kv.1, dumps .sorted kv.2)), Written .sorted kv := by
    intro kvs hkvs kv hkv
    obtain ⟨x, hx, rfl⟩ := List.mem_map.1 ((sortMembers_perm _).mem_iff.1 hkv)
    exact ⟨hkvs x hx, x.2, rfl⟩
  rw [dumps, dumps, dumpsMembers_eq_map, dumpsMembers_eq_map] at h
  have hclose : ∀ s, Delimited ('}' :: s) := fun _ => trivial
  exact join_inj (s := []) (t := []) (parts_member Style.clean_sorted) hclose (by decide)
    (hwritten hkvs) (hwritten hkvs') (List.cons.inj h).2

/-! ## Strings -/

theorem parts_quote : Parts quote fun s => (s.all fun c => !highSurrogate c) = true where
  ends := fun hs ht _ _ heq => quote_append_inj hs ht heq
  opens := fun _ hclose => quote_ne_close hclose

theorem strings_of_dumps {ss ss' : List PyStr} (hss : ∀ s ∈ ss, (s.all fun c => !highSurrogate c) = true)
    (hss' : ∀ s ∈ ss', (s.all fun c => !highSurrogate c) = true)
    (h : dumps .sorted (.arr (ss.map .str)) = dumps .sorted (.arr (ss'.map .str))) : ss = ss' := by
  have hall : ∀ ss : List PyStr, dumpsAll .sorted (ss.map .str) = ss.map quote := by
    intro ss
    induction ss with
    | nil => rfl
    | cons s ss ih => rw [List.map_cons, dumpsAll, ih, dumps, List.map_cons]
  rw [dumps, dumps, hall, hall] at h
  have hclose : ∀ s, Delimited (']' :: s) := fun _ => trivial
  exact join_inj (s := []) (t := []) parts_quote hclose (by decide) hss hss' (List.cons.inj h).2

end Toolstack.Json
