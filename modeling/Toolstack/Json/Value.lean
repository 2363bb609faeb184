import Mathlib.Algebra.Ring.Nat
import Mathlib.Data.List.Infix
import Mathlib.Data.List.Lex
import Mathlib.Data.List.Sort
import Mathlib.Data.Prod.Lex

/-! JSON values as a Python program holds them, and their ASCII rendering. A string is a list
of code points, so that it may contain the lone surrogates JSON escapes can carry. -/

namespace Toolstack

abbrev CodePoint := Fin 0x110000

abbrev PyStr := List CodePoint

instance CodePoint.neZero : NeZero 0x110000 := ⟨by decide⟩

instance CodePoint.lawfulBEq : LawfulBEq CodePoint := inferInstance

instance PyStr.lawfulBEq : LawfulBEq PyStr := inferInstance

/-- Rendered text: everything the renderer writes is ASCII. -/
abbrev Text := List Char

def py (s : String) : PyStr := s.toList.map fun c => Fin.ofNat _ c.toNat

theorem toNat_ofNat {n : Nat} (h : n < 0xD800) : (Char.ofNat n).toNat = n := by
  have hvalid : n.isValidChar := .inl h
  rw [Char.ofNat, dif_pos hvalid]
  rfl

theorem py_injective : Function.Injective py := by
  intro s t h
  apply String.toList_injective
  refine List.map_injective_iff.2 (fun c d hcd => ?_) h
  have hlt : ∀ c : Char, c.toNat < 0x110000 := fun c => by
    have := c.valid
    rcases c.valid with hc | hc
    · exact Nat.lt_of_lt_of_le hc (by decide)
    · exact hc.2
  have hval := congrArg Fin.val hcd
  simp only [Fin.val_ofNat, Nat.mod_eq_of_lt (hlt _)] at hval
  exact Char.toNat_inj.1 hval

def CodePoint.isSurrogate (c : CodePoint) : Bool := 0xD800 ≤ c.val && c.val ≤ 0xDFFF

/-- A finite float is known by its shortest decimal text, which always shows a point or an
exponent, so no float is written like an integer. -/
structure FloatText where
  text : Text
  plain : text.all fun c => c.isDigit || c = '.' || c = 'e' || c = '+' || c = '-'
  marked : text.any fun c => c = '.' || c = 'e'

inductive PyFloat
  | finite (x : FloatText)
  | nan
  | inf (negative : Bool)

inductive Json
  | null
  | bool (b : Bool)
  | int (n : Int)
  | float (x : PyFloat)
  | str (s : PyStr)
  | arr (xs : List Json)
  | obj (kvs : List (PyStr × Json))

namespace Json

/-- `dict.get`: the keys of a dict are distinct. -/
def find? (kvs : List (PyStr × Json)) (k : PyStr) : Option Json :=
  (kvs.find? fun kv => kv.1 = k).map Prod.snd

/-- Python's truth value. -/
def truthy : Json → Bool
  | null => false
  | bool b => b
  | int n => n ≠ 0
  | float (.finite x) => x.text.takeWhile (· ≠ 'e') |>.any fun c => c.isDigit && c ≠ '0'
  | float _ => true
  | str s => s ≠ []
  | arr xs => !xs.isEmpty
  | obj kvs => !kvs.isEmpty

mutual
/-- No `nan` and no infinity anywhere: what `allow_nan=False` accepts. -/
def finite : Json → Bool
  | float (.finite _) => true
  | float _ => false
  | arr xs => finiteAll xs
  | obj kvs => finiteMembers kvs
  | _ => true

def finiteAll : List Json → Bool
  | [] => true
  | x :: xs => finite x && finiteAll xs

def finiteMembers : List (PyStr × Json) → Bool
  | [] => true
  | (_, v) :: kvs => finite v && finiteMembers kvs
end

theorem finiteAll_eq (xs : List Json) : finiteAll xs = xs.all finite := by
  induction xs with
  | nil => rfl
  | cons x xs ih => rw [finiteAll, ih, List.all_cons]

theorem finiteMembers_eq (kvs : List (PyStr × Json)) :
    finiteMembers kvs = kvs.all fun kv => finite kv.2 := by
  induction kvs with
  | nil => rfl
  | cons kv kvs ih => rw [finiteMembers, ih, List.all_cons]

theorem finite_arr {xs : List Json} : (arr xs).finite = true ↔ ∀ x ∈ xs, x.finite = true := by
  rw [finite, finiteAll_eq, List.all_eq_true]

theorem finite_obj {kvs : List (PyStr × Json)} :
    (obj kvs).finite = true ↔ ∀ kv ∈ kvs, kv.2.finite = true := by
  rw [finite, finiteMembers_eq, List.all_eq_true]

/-! ## Rendering -/

def hex4 (n : Nat) : Text :=
  [n / 4096 % 16, n / 256 % 16, n / 16 % 16, n % 16].map Nat.digitChar

/-- One code point under `ensure_ascii`; beyond the basic plane as a surrogate pair. -/
def escape (c : CodePoint) : Text :=
  let n := c.val
  if n = 0x22 then ['\\', '"']
  else if n = 0x5C then ['\\', '\\']
  else if n = 0x0A then ['\\', 'n']
  else if n = 0x0D then ['\\', 'r']
  else if n = 0x09 then ['\\', 't']
  else if n = 0x0C then ['\\', 'f']
  else if n = 0x08 then ['\\', 'b']
  else if 0x20 ≤ n ∧ n ≤ 0x7E then [Char.ofNat n]
  else if n ≤ 0xFFFF then '\\' :: 'u' :: hex4 n
  else
    '\\' :: 'u' :: hex4 (0xD800 + (n - 0x10000) / 0x400) ++
      '\\' :: 'u' :: hex4 (0xDC00 + (n - 0x10000) % 0x400)

def quote (s : PyStr) : Text := '"' :: (s.flatMap escape ++ ['"'])

def floatText : PyFloat → Text
  | .finite x => x.text
  | .nan => "NaN".toList
  | .inf false => "Infinity".toList
  | .inf true => "-Infinity".toList

/-- The options of one `json.dumps` call that the text depends on. -/
structure Style where
  comma : Text
  colon : Text
  sortKeys : Bool

/-- `json.dumps(v)` and `json.dumps(v, sort_keys=True)`. -/
def Style.plain : Style := ⟨", ".toList, ": ".toList, false⟩

def Style.sorted : Style := ⟨", ".toList, ": ".toList, true⟩

/-- `separators=(",", ":"), sort_keys=True`. -/
def Style.compact : Style := ⟨[','], [':'], true⟩

def join (sep : Text) : List Text → Text
  | [] => []
  | [x] => x
  | x :: y :: xs => x ++ (sep ++ join sep (y :: xs))

def sortMembers {β : Type} (kvs : List (PyStr × β)) : List (PyStr × β) :=
  kvs.insertionSort fun a b => a.1 ≤ b.1

def Style.order {β : Type} (st : Style) (kvs : List (PyStr × β)) : List (PyStr × β) :=
  if st.sortKeys then sortMembers kvs else kvs

def member (st : Style) (kv : PyStr × Text) : Text := quote kv.1 ++ (st.colon ++ kv.2)

mutual
def dumps (st : Style) : Json → Text
  | null => "null".toList
  | bool true => "true".toList
  | bool false => "false".toList
  | int n => n.repr.toList
  | float x => floatText x
  | str s => quote s
  | arr xs => '[' :: (join st.comma (dumpsAll st xs) ++ [']'])
  | obj kvs => '{' :: (join st.comma ((st.order (dumpsMembers st kvs)).map (member st)) ++ ['}'])

def dumpsAll (st : Style) : List Json → List Text
  | [] => []
  | x :: xs => dumps st x :: dumpsAll st xs

def dumpsMembers (st : Style) : List (PyStr × Json) → List (PyStr × Text)
  | [] => []
  | (k, v) :: kvs => (k, dumps st v) :: dumpsMembers st kvs
end

/-- The canonical text of a value, or `none` where `allow_nan=False` raises `ValueError`. -/
def canonical (v : Json) : Option Text :=
  if v.finite then some (dumps .compact v) else none

theorem canonical_eq_some {v : Json} {t : Text} :
    canonical v = some t ↔ v.finite ∧ dumps .compact v = t := by
  simp [canonical]

theorem canonical_isSome {v : Json} : (canonical v).isSome = v.finite := by
  cases h : v.finite <;> simp [canonical, h]

/-! ## Reading a rendered value back

`json.loads` of the canonical text gives the value with the members of every object in key
order; the renderer cannot tell it from the original. -/

mutual
def normal : Json → Json
  | arr xs => arr (normalAll xs)
  | obj kvs => obj (sortMembers (normalMembers kvs))
  | v => v

def normalAll : List Json → List Json
  | [] => []
  | x :: xs => normal x :: normalAll xs

def normalMembers : List (PyStr × Json) → List (PyStr × Json)
  | [] => []
  | (k, v) :: kvs => (k, normal v) :: normalMembers kvs
end

theorem dumpsMembers_eq_map (st : Style) (kvs : List (PyStr × Json)) :
    dumpsMembers st kvs = kvs.map fun kv => (kv.1, dumps st kv.2) := by
  induction kvs with
  | nil => rfl
  | cons kv kvs ih => rw [dumpsMembers, ih, List.map_cons]

theorem sortMembers_map {β γ : Type} (f : β → γ) (kvs : List (PyStr × β)) :
    (sortMembers kvs).map (fun kv => (kv.1, f kv.2)) =
      sortMembers (kvs.map fun kv => (kv.1, f kv.2)) :=
  List.map_insertionSort _ _ _ _ fun _ _ _ _ => Iff.rfl

theorem sortMembers_idem {β : Type} (kvs : List (PyStr × β)) :
    sortMembers (sortMembers kvs) = sortMembers kvs := by
  have htotal : Std.Total fun a b : PyStr × β => a.1 ≤ b.1 := ⟨fun a b => le_total a.1 b.1⟩
  have htrans : IsTrans (PyStr × β) fun a b => a.1 ≤ b.1 := ⟨fun _ _ _ => le_trans⟩
  exact (List.pairwise_insertionSort _ kvs).insertionSort_eq

mutual
theorem dumps_normal (st : Style) (hs : st.sortKeys = true) :
    ∀ v : Json, dumps st (normal v) = dumps st v
  | null | bool _ | int _ | float _ | str _ => by simp only [normal]
  | arr xs => by simp only [normal, dumps, dumpsAll_normal st hs xs]
  | obj kvs => by
    have hmembers := dumpsMembers_normal st hs kvs
    rw [normal, dumps, dumps, ← hmembers]
    simp only [Style.order, hs, if_true]
    rw [dumpsMembers_eq_map, sortMembers_map, sortMembers_idem, ← dumpsMembers_eq_map]

theorem dumpsAll_normal (st : Style) (hs : st.sortKeys = true) :
    ∀ xs : List Json, dumpsAll st (normalAll xs) = dumpsAll st xs
  | [] => rfl
  | x :: xs => by rw [normalAll, dumpsAll, dumpsAll, dumps_normal st hs x, dumpsAll_normal st hs xs]

theorem dumpsMembers_normal (st : Style) (hs : st.sortKeys = true) :
    ∀ kvs : List (PyStr × Json), dumpsMembers st (normalMembers kvs) = dumpsMembers st kvs
  | [] => rfl
  | (k, v) :: kvs => by
    rw [normalMembers, dumpsMembers, dumpsMembers, dumps_normal st hs v,
      dumpsMembers_normal st hs kvs]
end

mutual
theorem finite_normal : ∀ v : Json, finite (normal v) = finite v
  | null | bool _ | int _ | float _ | str _ => by simp only [normal]
  | arr xs => by simp only [normal, finite, finiteAll_normal xs]
  | obj kvs => by
    have hperm := (List.perm_insertionSort (fun a b => a.1 ≤ b.1) (normalMembers kvs)).all_eq
      (f := fun kv => finite kv.2)
    rw [normal, finite, finite, ← finiteMembers_normal kvs, finiteMembers_eq, finiteMembers_eq]
    exact hperm

theorem finiteAll_normal : ∀ xs : List Json, finiteAll (normalAll xs) = finiteAll xs
  | [] => rfl
  | x :: xs => by rw [normalAll, finiteAll, finiteAll, finite_normal x, finiteAll_normal xs]

theorem finiteMembers_normal :
    ∀ kvs : List (PyStr × Json), finiteMembers (normalMembers kvs) = finiteMembers kvs
  | [] => rfl
  | (k, v) :: kvs => by
    rw [normalMembers, finiteMembers, finiteMembers, finite_normal v, finiteMembers_normal kvs]
end

theorem canonical_normal (v : Json) : canonical (normal v) = canonical v := by
  rw [canonical, canonical, finite_normal, dumps_normal _ rfl]

end Json

end Toolstack
