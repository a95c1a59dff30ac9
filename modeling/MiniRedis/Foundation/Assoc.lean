import Mathlib.Data.List.Nodup
import Mathlib.Data.List.Perm.Basic
import Mathlib.Tactic.Common

/-!
# Association lists and insertion-ordered dictionaries

Association lists are searched from the front: the first pair under a key is the one
that counts. `replace` overwrites it in place, `erase` removes it. `Dict` is a list of
pairs whose keys are pairwise distinct, so that a lookup and a membership test on the
pairs say the same thing (`Dict.mem_entries_iff`).
-/

namespace Assoc

variable {K V : Type} [DecidableEq K]

/-- The keys of an association list, in order. -/
abbrev keys (entries : List (K × V)) : List K := entries.map Prod.fst

/-- Overwrite the first pair under `key` in place, or answer `none` if there is none. -/
def replace (key : K) (value : V) : List (K × V) → Option (List (K × V))
  | [] => none
  | entry :: rest =>
      if entry.1 = key then some ((key, value) :: rest)
      else (replace key value rest).map (entry :: ·)

/-- Remove the first pair under `key`. -/
def erase (key : K) (entries : List (K × V)) : List (K × V) :=
  entries.eraseP (fun entry => entry.1 = key)

/-- A lookup answers with the first pair or goes on behind it. -/
theorem lookup_cons (key : K) (entry : K × V) (rest : List (K × V)) :
    (entry :: rest).lookup key = if key = entry.1 then some entry.2 else rest.lookup key := by
  obtain ⟨first, value⟩ := entry
  rw [List.lookup_cons]
  by_cases h : key = first
  · simp [h]
  · simp [beq_false_of_ne h, h]

/-- A lookup fails exactly when no pair has the key. -/
theorem lookup_eq_none_iff {key : K} {entries : List (K × V)} :
    entries.lookup key = none ↔ key ∉ keys entries := by
  simp only [List.lookup_eq_none_iff, bne_iff_ne, ne_eq, keys, List.mem_map, not_exists, not_and]
  exact ⟨fun h p hp he => h p hp he.symm, fun h p hp he => h p hp he.symm⟩

/-- A successful lookup answers with a pair of the list. -/
theorem mem_of_lookup {key : K} {value : V} {entries : List (K × V)}
    (h : entries.lookup key = some value) : (key, value) ∈ entries := by
  obtain ⟨front, back, rfl, _⟩ := List.lookup_eq_some_iff.mp h
  simp

/-- With distinct keys, a lookup answers exactly with the pairs of the list. -/
theorem mem_iff_lookup {key : K} {value : V} {entries : List (K × V)}
    (hnodup : (keys entries).Nodup) :
    (key, value) ∈ entries ↔ entries.lookup key = some value := by
  refine ⟨fun hmem => ?_, mem_of_lookup⟩
  induction entries with
  | nil => simp at hmem
  | cons entry rest ih =>
      simp only [keys, List.map_cons, List.nodup_cons] at hnodup
      rcases List.mem_cons.mp hmem with rfl | hrest
      · simp
      · have hne : key ≠ entry.1 := by
          rintro rfl
          exact hnodup.1 (List.mem_map.mpr ⟨_, hrest, rfl⟩)
        rw [lookup_cons, if_neg hne]
        exact ih hnodup.2 hrest

/-- Lists with the same pairs, in any order, and distinct keys answer every lookup alike. -/
theorem lookup_perm {left right : List (K × V)} (hperm : left.Perm right)
    (hnodup : (keys left).Nodup) (key : K) : left.lookup key = right.lookup key := by
  have hright : (keys right).Nodup := (hperm.map Prod.fst).nodup_iff.mp hnodup
  apply Option.ext
  intro value
  rw [← mem_iff_lookup hnodup, ← mem_iff_lookup hright, hperm.mem_iff]

/-- There is nothing to replace exactly when no pair has the key. -/
theorem replace_eq_none_iff {key : K} {value : V} {entries : List (K × V)} :
    replace key value entries = none ↔ key ∉ keys entries := by
  induction entries with
  | nil => simp [replace]
  | cons entry rest ih =>
      by_cases hkey : entry.1 = key
      · simp [replace, hkey]
      · simp [replace, hkey, ih, Ne.symm hkey]

/-- Overwriting keeps the keys and their order. -/
theorem keys_replace {key : K} {value : V} {entries replaced : List (K × V)}
    (h : replace key value entries = some replaced) : keys replaced = keys entries := by
  induction entries generalizing replaced with
  | nil => simp [replace] at h
  | cons entry rest ih =>
      simp only [replace] at h
      split at h
      · next hkey =>
          cases h
          simp [hkey]
      · obtain ⟨tail, htail, rfl⟩ := Option.map_eq_some_iff.mp h
        simpa using ih htail

/-- After overwriting, the key has the new value and every other key its old one. -/
theorem lookup_replace {key : K} {value : V} {entries replaced : List (K × V)}
    (h : replace key value entries = some replaced) (other : K) :
    replaced.lookup other = if other = key then some value else entries.lookup other := by
  induction entries generalizing replaced with
  | nil => simp [replace] at h
  | cons entry rest ih =>
      simp only [replace] at h
      split at h
      · next hkey =>
          cases h
          simp only [lookup_cons, hkey]
          split <;> rfl
      · next hkey =>
          obtain ⟨tail, htail, rfl⟩ := Option.map_eq_some_iff.mp h
          rw [lookup_cons, lookup_cons, ih htail]
          by_cases hentry : other = entry.1
          · simp [hentry, hkey]
          · simp [hentry]

/-- A pair appended under a fresh key is found, and hides nothing. -/
theorem lookup_append_fresh {key : K} {value : V} {entries : List (K × V)}
    (hfresh : key ∉ keys entries) (other : K) :
    (entries ++ [(key, value)]).lookup other =
      if other = key then some value else entries.lookup other := by
  rw [List.lookup_append]
  by_cases hother : other = key
  · subst hother
    simp [lookup_eq_none_iff.mpr hfresh]
  · simp [lookup_cons, hother]

/-- Removing a found pair takes exactly that pair out. -/
theorem perm_erase {key : K} {value : V} {entries : List (K × V)}
    (h : entries.lookup key = some value) : entries.Perm ((key, value) :: erase key entries) := by
  induction entries with
  | nil => simp at h
  | cons entry rest ih =>
      by_cases hkey : entry.1 = key
      · obtain ⟨first, second⟩ := entry
        cases hkey
        simp only [List.lookup_cons_self, Option.some.injEq] at h
        simp [erase, h]
      · rw [lookup_cons, if_neg (Ne.symm hkey)] at h
        have herase : erase key (entry :: rest) = entry :: erase key rest := by
          simp [erase, hkey]
        rw [herase]
        exact ((ih h).cons entry).trans (List.Perm.swap _ _ _)

/-- Removing an absent key changes nothing. -/
theorem erase_of_not_mem {key : K} {entries : List (K × V)} (h : key ∉ keys entries) :
    erase key entries = entries := by
  refine List.eraseP_of_forall_not (fun entry hentry => ?_)
  simp only [decide_eq_true_eq]
  rintro rfl
  exact h (List.mem_map.mpr ⟨entry, hentry, rfl⟩)

/-- Removing a key keeps the keys distinct. -/
theorem nodup_erase {key : K} {entries : List (K × V)} (h : (keys entries).Nodup) :
    (keys (erase key entries)).Nodup :=
  h.sublist (List.eraseP_sublist.map Prod.fst)

/-- With distinct keys, a removed key is gone and every other key keeps its value. -/
theorem lookup_erase {key : K} {entries : List (K × V)} (hnodup : (keys entries).Nodup)
    (other : K) :
    (erase key entries).lookup other = if other = key then none else entries.lookup other := by
  cases hfound : entries.lookup key with
  | none =>
      rw [erase_of_not_mem (lookup_eq_none_iff.mp hfound)]
      by_cases hother : other = key
      · simp [hother, hfound]
      · simp [hother]
  | some value =>
      have hperm := perm_erase hfound
      have hcons : (keys ((key, value) :: erase key entries)).Nodup :=
        (hperm.map Prod.fst).nodup_iff.mp hnodup
      by_cases hother : other = key
      · subst hother
        simp only [keys, List.map_cons, List.nodup_cons] at hcons
        simpa using lookup_eq_none_iff.mpr hcons.1
      · rw [lookup_perm hperm hnodup other, lookup_cons, if_neg hother, if_neg hother]

/-- Assigning pairs with distinct keys one by one finds each of them, over what was there. -/
theorem foldl_assign {entries : List (K × V)} (hnodup : (keys entries).Nodup) (key : K)
    (found : Option V) :
    entries.foldl (fun found entry => if key = entry.1 then some entry.2 else found) found =
      (entries.lookup key).or found := by
  induction entries generalizing found with
  | nil => rfl
  | cons entry rest ih =>
      simp only [keys, List.map_cons, List.nodup_cons] at hnodup
      rw [List.foldl_cons, ih hnodup.2, lookup_cons]
      by_cases hkey : key = entry.1
      · have hnone : rest.lookup entry.1 = none := lookup_eq_none_iff.mpr hnodup.1
        simp [hkey, hnone]
      · simp [hkey]

end Assoc

/-- A dictionary: pairs in insertion order, no key twice. -/
structure Dict (K V : Type) where
  entries : List (K × V)
  nodup : (Assoc.keys entries).Nodup

namespace Dict

variable {K V : Type}

/-- The dictionary without pairs. -/
def empty : Dict K V := ⟨[], List.nodup_nil⟩

/-- Keep the pairs that satisfy `keep`, in order. -/
def filter (keep : K → V → Bool) (dict : Dict K V) : Dict K V :=
  ⟨dict.entries.filter (fun entry => keep entry.1 entry.2),
    dict.nodup.sublist (List.filter_sublist.map Prod.fst)⟩

variable [DecidableEq K]

/-- The value under a key, if there is one. -/
def get? (dict : Dict K V) (key : K) : Option V := dict.entries.lookup key

/-- Whether the key has a value. -/
def contains (dict : Dict K V) (key : K) : Bool := (dict.get? key).isSome

/-- The pairs after an assignment: a present key is overwritten in place, a new one goes last. -/
def insertEntries (entries : List (K × V)) (key : K) (value : V) : List (K × V) :=
  (Assoc.replace key value entries).getD (entries ++ [(key, value)])

/-- An assignment keeps the keys distinct. -/
theorem nodup_insertEntries {entries : List (K × V)} (h : (Assoc.keys entries).Nodup) (key : K)
    (value : V) : (Assoc.keys (insertEntries entries key value)).Nodup := by
  unfold insertEntries
  cases hreplace : Assoc.replace key value entries with
  | some replaced =>
      rw [Option.getD_some, Assoc.keys_replace hreplace]
      exact h
  | none =>
      have hfresh := Assoc.replace_eq_none_iff.mp hreplace
      simpa [Assoc.keys, List.nodup_append, h] using
        fun a b hb he => hfresh (List.mem_map.mpr ⟨(a, b), hb, he⟩)

/-- `dict[key] = value`. -/
def insert (dict : Dict K V) (key : K) (value : V) : Dict K V :=
  ⟨insertEntries dict.entries key value, nodup_insertEntries dict.nodup key value⟩

/-- `dict.pop(key, None)`, the removed value aside. -/
def erase (dict : Dict K V) (key : K) : Dict K V :=
  ⟨Assoc.erase key dict.entries, Assoc.nodup_erase dict.nodup⟩

/-- The dictionary of a list of pairs; of two pairs with one key the later value stays. -/
def ofList (entries : List (K × V)) : Dict K V :=
  entries.foldl (fun dict entry => dict.insert entry.1 entry.2) empty

@[simp] theorem get?_empty (key : K) : (empty : Dict K V).get? key = none := rfl

/-- The pairs are exactly what lookups answer with. -/
theorem mem_entries_iff {dict : Dict K V} {key : K} {value : V} :
    (key, value) ∈ dict.entries ↔ dict.get? key = some value :=
  Assoc.mem_iff_lookup dict.nodup

/-- A key occurs exactly when its lookup succeeds. -/
theorem mem_keys_iff {dict : Dict K V} {key : K} :
    key ∈ Assoc.keys dict.entries ↔ (dict.get? key).isSome := by
  rw [← not_iff_not, ← Assoc.lookup_eq_none_iff, Option.not_isSome_iff_eq_none]
  rfl

@[simp] theorem get?_insert (dict : Dict K V) (key : K) (value : V) (other : K) :
    (dict.insert key value).get? other = if other = key then some value else dict.get? other := by
  simp only [get?, insert, insertEntries]
  cases hreplace : Assoc.replace key value dict.entries with
  | some replaced => exact Assoc.lookup_replace hreplace other
  | none => exact Assoc.lookup_append_fresh (Assoc.replace_eq_none_iff.mp hreplace) other

@[simp] theorem get?_erase (dict : Dict K V) (key other : K) :
    (dict.erase key).get? other = if other = key then none else dict.get? other :=
  Assoc.lookup_erase dict.nodup other

@[simp] theorem get?_filter (keep : K → V → Bool) (dict : Dict K V) (key : K) :
    (dict.filter keep).get? key = (dict.get? key).filter (keep key) := by
  apply Option.ext
  intro value
  rw [← mem_entries_iff, Option.filter_eq_some_iff, ← mem_entries_iff]
  simp [filter]

/-- Building from pairs with distinct keys keeps exactly these pairs. -/
theorem get?_ofList {entries : List (K × V)} (hnodup : (Assoc.keys entries).Nodup) (key : K) :
    (ofList entries).get? key = entries.lookup key := by
  have hfold : ∀ (rest : List (K × V)) (dict : Dict K V),
      (rest.foldl (fun dict entry => dict.insert entry.1 entry.2) dict).get? key =
        rest.foldl (fun found entry => if key = entry.1 then some entry.2 else found)
          (dict.get? key) := by
    intro rest
    induction rest with
    | nil => intro dict; rfl
    | cons entry rest ih =>
        intro dict
        rw [List.foldl_cons, ih, get?_insert, List.foldl_cons]
  rw [ofList, hfold, Assoc.foldl_assign hnodup, get?_empty, Option.or_none]

/-- Building from pairs with distinct keys keeps their order. -/
theorem entries_ofList {entries : List (K × V)} (hnodup : (Assoc.keys entries).Nodup) :
    (ofList entries).entries = entries := by
  have hfold : ∀ (rest : List (K × V)) (dict : Dict K V),
      (Assoc.keys (dict.entries ++ rest)).Nodup →
      (rest.foldl (fun dict entry => dict.insert entry.1 entry.2) dict).entries =
        dict.entries ++ rest := by
    intro rest
    induction rest with
    | nil => exact fun dict _ => (List.append_nil _).symm
    | cons entry rest ih =>
        intro dict h
        have hfresh : entry.1 ∉ Assoc.keys dict.entries := by
          rw [Assoc.keys, List.map_append, List.nodup_append] at h
          exact fun hmem => h.2.2 entry.1 hmem entry.1 (by simp) rfl
        have hinsert : (dict.insert entry.1 entry.2).entries = dict.entries ++ [entry] := by
          show (Assoc.replace entry.1 entry.2 dict.entries).getD _ = _
          rw [Assoc.replace_eq_none_iff.mpr hfresh, Option.getD_none]
        rw [List.foldl_cons, ih _ (by rw [hinsert, List.append_assoc]; exact h), hinsert,
          List.append_assoc]
        rfl
  exact hfold entries empty hnodup

/-- Dictionaries with the same pairs in any order have the same lookups. -/
theorem get?_ofList_perm {entries : List (K × V)} {dict : Dict K V}
    (h : entries.Perm dict.entries) (key : K) : (ofList entries).get? key = dict.get? key := by
  have hnodup : (Assoc.keys entries).Nodup := (h.map Prod.fst).nodup_iff.mpr dict.nodup
  rw [get?_ofList hnodup, Assoc.lookup_perm h hnodup, get?]

end Dict
