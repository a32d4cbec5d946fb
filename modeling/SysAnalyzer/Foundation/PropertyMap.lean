import Mathlib

/-!
# Objects as maps

An object that is used as a map keeps its entries in the order in which they are
added, and hands them out with those that have an array index as their key in
front, by the index.

`group` collects items by their keys: the entry of a key is what its items make
of it one after the other, whatever lies between them.
-/

namespace SysAnalyzer.Foundation

open List

universe u v w x

/-- The properties that every object has, whether or not it has entries of its own. -/
def objectPrototypeNames : List String :=
  ["constructor", "__defineGetter__", "__defineSetter__", "hasOwnProperty",
    "__lookupGetter__", "__lookupSetter__", "isPrototypeOf",
    "propertyIsEnumerable", "toString", "valueOf", "__proto__",
    "toLocaleString"]

section Upsert

variable {Key : Type u} {Value : Type v} [DecidableEq Key]

/-- The entry of a key is changed, or added. -/
def upsert (key : Key) (change : Option Value → Value) : List (Key × Value) → List (Key × Value)
  | [] => [(key, change none)]
  | entry :: rest =>
    if entry.1 = key then (key, change (some entry.2)) :: rest
    else entry :: upsert key change rest

theorem keys_upsert (key : Key) (change : Option Value → Value) (entries : List (Key × Value)) :
    (upsert key change entries).map Prod.fst = if key ∈ entries.map Prod.fst then
      entries.map Prod.fst else entries.map Prod.fst ++ [key] := by
  induction entries with
  | nil => rfl
  | cons entry rest induction =>
    rw [upsert]
    by_cases same : entry.1 = key
    · simp [same]
    · rw [if_neg same, map_cons, induction]
      have different : key ≠ entry.1 := Ne.symm same
      by_cases member : key ∈ rest.map Prod.fst <;> simp_all

theorem lookup_upsert (key wanted : Key) (change : Option Value → Value)
    (entries : List (Key × Value)) :
    (upsert key change entries).lookup wanted = if wanted = key then
      some (change (entries.lookup key)) else entries.lookup wanted := by
  induction entries with
  | nil =>
    by_cases same : wanted = key
    · simp [upsert, same]
    · simp [upsert, lookup_cons, same, beq_false_of_ne same]
  | cons entry rest induction =>
    rcases entry with ⟨other, value⟩
    rw [upsert]
    by_cases same : other = key
    · subst same
      rw [if_pos rfl, lookup_cons, lookup_cons_self]
      by_cases isKey : wanted = other
      · simp [isKey]
      · simp [lookup_cons, isKey, beq_false_of_ne isKey]
    · rw [if_neg same, lookup_cons, induction, lookup_cons, lookup_cons]
      by_cases isKey : wanted = key
      · simp [isKey, beq_false_of_ne (Ne.symm same)]
      · simp [isKey]

theorem filter_upsert (keep : Key → Bool) (key : Key)
    (change : Option Value → Value) (entries : List (Key × Value)) :
    (upsert key change entries).filter (fun entry => keep entry.1) = if keep key then
      upsert key change (entries.filter fun entry => keep entry.1) else
      entries.filter fun entry => keep entry.1 := by
  induction entries with
  | nil => cases kept : keep key <;> simp [upsert, kept]
  | cons entry rest induction =>
    rw [upsert]
    by_cases same : entry.1 = key
    · cases kept : keep key <;> simp [same, kept, upsert]
    · rw [if_neg same, filter_cons, induction, filter_cons]
      cases keptEntry : keep entry.1 <;> cases kept : keep key <;> simp [upsert, same]

variable {entries : List (Key × Value)}

theorem upsert_append {key : Key} (change : Option Value → Value)
    (absent : key ∉ entries.map Prod.fst) (others : List (Key × Value)) :
    upsert key change (entries ++ others) = entries ++ upsert key change others := by
  induction entries with
  | nil => rfl
  | cons entry rest induction =>
    rw [map_cons, mem_cons, not_or] at absent
    rw [cons_append, upsert, if_neg (Ne.symm absent.1), induction absent.2]
    rfl

theorem upsert_of_not_mem {key : Key} (change : Option Value → Value)
    (absent : key ∉ entries.map Prod.fst) :
    upsert key change entries = entries ++ [(key, change none)] := by
  simpa [upsert] using upsert_append change absent []

theorem idxOf?_concat [BEq Key] [LawfulBEq Key]
    {keys : List Key} {key : Key} (absent : key ∉ keys) (wanted : Key) :
    (keys ++ [key]).idxOf? wanted =
      if wanted = key then some keys.length else keys.idxOf? wanted := by
  induction keys with
  | nil =>
    by_cases same : wanted = key
    · simp [same]
    · simp [same, Ne.symm same]
  | cons head rest induction =>
    rw [mem_cons, not_or] at absent
    rw [cons_append, idxOf?_cons, idxOf?_cons, induction absent.2]
    by_cases same : wanted = key
    · subst same
      simp [Ne.symm absent.1]
    · simp [same]

theorem values_upsert_of_idxOf? [BEq Key] [LawfulBEq Key]
    {key : Key} (change : Option Value → Value) {number : Nat}
    (found : (entries.map Prod.fst).idxOf? key = some number) :
    (upsert key change entries).map Prod.snd =
      (entries.map Prod.snd).modify number fun value => change (some value) := by
  induction entries generalizing number with
  | nil => simp at found
  | cons entry rest induction =>
    rw [map_cons, idxOf?_cons] at found
    by_cases same : entry.1 = key
    · rw [if_pos (by simpa using same), Option.some.injEq] at found
      subst found
      rw [upsert, if_pos same]
      rfl
    · rw [if_neg (by simpa using same), Option.map_eq_some_iff] at found
      rcases found with ⟨before, inRest, rfl⟩
      rw [upsert, if_neg same, map_cons, induction inRest]
      rfl

theorem lookup_eq_some_iff_mem
    (distinct : (entries.map Prod.fst).Nodup) {key : Key} {value : Value} :
    entries.lookup key = some value ↔ (key, value) ∈ entries := by
  induction entries with
  | nil => simp
  | cons entry rest induction =>
    rcases entry with ⟨other, otherValue⟩
    rw [map_cons, nodup_cons] at distinct
    rw [lookup_cons, mem_cons]
    by_cases same : key = other
    · subst same
      have absent : (key, value) ∉ rest :=
        fun member => distinct.1 (mem_map.2 ⟨_, member, rfl⟩)
      simp [absent, eq_comm]
    · simp [same, beq_false_of_ne same, induction distinct.2]

theorem forall_upsert {holds : Key → Value → Prop} {key : Key}
    {change : Option Value → Value} {entries : List (Key × Value)}
    (before : ∀ entry ∈ entries, holds entry.1 entry.2)
    (keeps : ∀ value, (∀ old ∈ value, holds key old) → holds key (change value)) :
    ∀ entry ∈ upsert key change entries, holds entry.1 entry.2 := by
  induction entries with
  | nil => simpa [upsert] using keeps none (by simp)
  | cons entry rest induction =>
    rw [forall_mem_cons] at before
    rw [upsert]
    by_cases same : entry.1 = key
    · rw [if_pos same, forall_mem_cons]
      refine ⟨keeps _ fun old isOld => ?_, before.2⟩
      rw [← Option.some_inj.1 isOld, ← same]
      exact before.1
    · rw [if_neg same, forall_mem_cons]
      exact ⟨before.1, induction before.2⟩

theorem sum_upsert {Number : Type w} [AddCommMonoid Number]
    {number : Value → Number} {amount : Number} {key : Key}
    {change : Option Value → Value} {entries : List (Key × Value)} {holds : Key → Value → Prop}
    (before : ∀ entry ∈ entries, holds entry.1 entry.2)
    (adds : ∀ value, (∀ old ∈ value, holds key old) →
      number (change value) = ((value.map number).getD 0) + amount) :
    ((upsert key change entries).map fun entry => number entry.2).sum =
      (entries.map fun entry => number entry.2).sum + amount := by
  induction entries with
  | nil => simp [upsert, adds]
  | cons entry rest induction =>
    rw [forall_mem_cons] at before
    rw [upsert]
    by_cases same : entry.1 = key
    · have grows := adds (some entry.2) fun old isOld => by
        rw [← Option.some_inj.1 isOld, ← same]
        exact before.1
      rw [if_pos same, map_cons, sum_cons, grows, map_cons, sum_cons]
      exact add_right_comm _ _ _
    · rw [if_neg same, map_cons, sum_cons, induction before.2, map_cons, sum_cons, add_assoc]

end Upsert

theorem sum_of_key {Element : Type u} {Key : Type v} [DecidableEq Key]
    {key : Element → Key} {elements : List Element}
    (distinct : (elements.map key).Nodup) (amount : Element → Nat) (wanted : Key) :
    (elements.map fun element =>
      if key element = wanted then amount element else 0).sum =
      ((elements.find? fun element => key element = wanted).map amount).getD 0 := by
  induction elements with
  | nil => rfl
  | cons element rest induction =>
    rw [map_cons, nodup_cons] at distinct
    rw [map_cons, sum_cons, find?_cons, induction distinct.2]
    by_cases same : key element = wanted
    · subst same
      have none : rest.find? (fun other => key other = key element) = none :=
        find?_eq_none.2 fun other member isKey =>
          distinct.1 (mem_map.2 ⟨other, member, by simpa using isKey⟩)
      simp [none]
    · simp [same]

section Group

variable {Item : Type u} {Key : Type v} {Value : Type w} [DecidableEq Key]

def group (key : Item → Key) (change : Item → Option Value → Value)
    (items : List Item) : List (Key × Value) :=
  items.foldl (fun entries item => upsert (key item) (change item) entries) []

/-- What items make of an entry. -/
def gather (change : Item → Option Value → Value) (items : List Item) : Option Value :=
  items.foldl (fun value item => some (change item value)) none

variable (key : Item → Key) (change : Item → Option Value → Value)

theorem group_concat (items : List Item) (item : Item) : group key change (items ++ [item]) =
    upsert (key item) (change item) (group key change items) := by
  simp [group]

theorem gather_concat (items : List Item) (item : Item) :
    gather change (items ++ [item]) = some (change item (gather change items)) := by
  simp [gather]

variable {items : List Item}

theorem gather_isSome (nonempty : items ≠ []) : (gather change items).isSome = true := by
  rcases eq_nil_or_concat items with none | ⟨before, item, rfl⟩
  · exact absurd none nonempty
  · rw [concat_eq_append, gather_concat]
    rfl

theorem lookup_group (items : List Item) (wanted : Key) : (group key change items).lookup wanted =
    gather change (items.filter fun item => key item = wanted) := by
  induction items using reverseRecOn with
  | nil => rfl
  | append_singleton items item induction =>
    rw [group_concat, lookup_upsert, filter_append]
    by_cases same : wanted = key item
    · subst same
      rw [if_pos rfl, induction]
      simp [gather_concat]
    · rw [if_neg same, induction]
      simp [Ne.symm same]

theorem mem_keys_group (items : List Item) (wanted : Key) :
    wanted ∈ (group key change items).map Prod.fst ↔ ∃ item ∈ items, key item = wanted := by
  induction items using reverseRecOn with
  | nil => simp [group]
  | append_singleton items item induction =>
    rw [group_concat, keys_upsert]
    have concat : (∃ other ∈ items ++ [item], key other = wanted) ↔
      (∃ other ∈ items, key other = wanted) ∨ key item = wanted := by
      simp [or_and_right, exists_or]
    by_cases member : key item ∈ (group key change items).map Prod.fst
    · rw [if_pos member, concat, induction]
      refine ⟨.inl, ?_⟩
      rintro (earlier | rfl)
      · exact earlier
      · exact induction.1 member
    · rw [if_neg member, concat, mem_append, induction, mem_singleton, eq_comm (a := wanted)]

theorem nodup_keys_group (items : List Item) : ((group key change items).map Prod.fst).Nodup := by
  induction items using reverseRecOn with
  | nil => simp [group]
  | append_singleton items item induction =>
    rw [group_concat, keys_upsert]
    by_cases member : key item ∈ (group key change items).map Prod.fst
    · rw [if_pos member]
      exact induction
    · rw [if_neg member, nodup_append]
      refine ⟨induction, nodup_singleton _, ?_⟩
      intro other ofItems another isKey
      rw [mem_singleton.1 isKey]
      exact fun same => member (same ▸ ofItems)

theorem filter_group (keep : Key → Bool) (items : List Item) :
    (group key change items).filter (fun entry => keep entry.1) =
      group key change (items.filter fun item => keep (key item)) := by
  induction items using reverseRecOn with
  | nil => rfl
  | append_singleton items item induction =>
    rw [group_concat, filter_upsert, induction, filter_append]
    cases kept : keep (key item)
    · simp [kept]
    · simp [kept, group_concat]

theorem mem_group_iff {wanted : Key} {value : Value} : (wanted, value) ∈ group key change items ↔
    gather change (items.filter fun item => key item = wanted) = some value := by
  rw [← lookup_group key change items wanted]
  exact (lookup_eq_some_iff_mem (nodup_keys_group key change items)).symm

theorem exists_head_of_gather {wanted : Key} {value : Value} (gathered :
    gather change (items.filter fun item => key item = wanted) = some value) :
    ∃ first rest, (items.filter fun item => decide (key item = wanted)) = first :: rest ∧
      first ∈ items ∧ key first = wanted := by
  cases ofKey : items.filter fun item => decide (key item = wanted) with
  | nil =>
    rw [ofKey] at gathered
    cases gathered
  | cons first rest =>
    have isFirst : first ∈ items.filter fun item => key item = wanted := by
      rw [ofKey]
      exact mem_cons_self
    rw [mem_filter, decide_eq_true_iff] at isFirst
    exact ⟨first, rest, rfl, isFirst⟩

theorem group_of_forall_eq {wanted : Key} (ofKey : ∀ item ∈ items, key item = wanted) :
    group key change items = ((gather change items).map fun value => (wanted, value)).toList := by
  induction items using reverseRecOn with
  | nil => rfl
  | append_singleton items item induction =>
    have earlier := induction fun other member => ofKey other (mem_append_left _ member)
    rw [group_concat, gather_concat, earlier, ofKey item (by simp)]
    cases gather change items with
    | none => rfl
    | some value => simp [upsert]

section

variable {holds : Key → Value → Prop}
  (keeps : ∀ item ∈ items, ∀ value, (∀ old ∈ value, holds (key item) old) →
    holds (key item) (change item value))
include keeps

theorem forall_group : ∀ entry ∈ group key change items, holds entry.1 entry.2 := by
  induction items using reverseRecOn with
  | nil => simp [group]
  | append_singleton items item induction =>
    rw [group_concat]
    exact forall_upsert (induction fun other member => keeps other (mem_append_left _ member))
      (keeps item (by simp))

theorem sum_group_of {Number : Type x} [AddCommMonoid Number]
    (number : Value → Number) {amount : Item → Number}
    (adds : ∀ item ∈ items, ∀ value, (∀ old ∈ value, holds (key item) old) →
      number (change item value) = ((value.map number).getD 0) + amount item) :
    ((group key change items).map fun entry => number entry.2).sum = (items.map amount).sum := by
  induction items using reverseRecOn with
  | nil => rfl
  | append_singleton items item induction =>
    have earlier : ∀ other ∈ items, other ∈ items ++ [item] :=
      fun other member => mem_append_left _ member
    have before := forall_group key change fun other member => keeps other (earlier other member)
    rw [group_concat, sum_upsert before (adds item (by simp)),
      induction (fun other member => keeps other (earlier other member))
        fun other member => adds other (earlier other member),
      map_append, sum_append]
    simp

end

variable {Number : Type x} [AddCommMonoid Number] (number : Value → Number)
  {amount : Item → Number}
  (adds : ∀ item ∈ items, ∀ value,
    number (change item value) = ((value.map number).getD 0) + amount item)

include adds

omit [DecidableEq Key] in
theorem number_gather : ((gather change items).map number).getD 0 = (items.map amount).sum := by
  induction items using reverseRecOn with
  | nil => rfl
  | append_singleton items item induction =>
    have earlier := induction fun other member => adds other (mem_append_left _ member)
    rw [gather_concat, Option.map_some, Option.getD_some,
      adds item (by simp), earlier, map_append, sum_append]
    simp

theorem sum_group :
    ((group key change items).map fun entry => number entry.2).sum = (items.map amount).sum :=
  let holds : Key → Value → Prop := fun _ _ => True
  have keeps : ∀ item ∈ items, ∀ value, (∀ old ∈ value, holds (key item) old) →
    holds (key item) (change item value) := fun _ _ _ _ => trivial
  sum_group_of key change keeps number fun item member value _ => adds item member value

end Group

/-! ## The order of the entries -/

section Order

variable {Value : Type u}

def arrayIndex (key : String) : Option Nat :=
  match key.toNat? with
  | none => none
  | some index => if toString index = key ∧ index < 2 ^ 32 - 1 then some index else none

theorem arrayIndex_inj {first second : String} {index : Nat}
    (ofFirst : arrayIndex first = some index)
    (ofSecond : arrayIndex second = some index) : first = second := by
  have text : ∀ key, arrayIndex key = some index → toString index = key := by
    intro key isIndex
    unfold arrayIndex at isIndex
    cases number : key.toNat? with
    | none => simp [number] at isIndex
    | some value =>
      simp only [number, Option.ite_none_right_eq_some, Option.some.injEq] at isIndex
      rw [← isIndex.2]
      exact isIndex.1.1
  rw [← text first ofFirst, ← text second ofSecond]

def isIndexed (entry : String × Value) : Bool := (arrayIndex entry.1).isSome

/-- The order of entries that have an array index. -/
def IndexLe (first second : String × Value) : Prop :=
  (arrayIndex first.1).getD 0 ≤ (arrayIndex second.1).getD 0

instance : DecidableRel (@IndexLe Value) := fun _ _ => Nat.decLe _ _

instance : Std.Total (@IndexLe Value) where
  total _ _ := le_total _ _

instance : IsTrans (String × Value) IndexLe where
  trans _ _ _ := le_trans

/-- `Object.entries`. -/
def objectEntries (entries : List (String × Value)) : List (String × Value) :=
  (entries.filter isIndexed).insertionSort IndexLe ++ entries.filter fun entry => !isIndexed entry

/-- `Object.values`. -/
def objectValues (entries : List (String × Value)) : List Value :=
  (objectEntries entries).map Prod.snd

theorem perm_objectEntries (entries : List (String × Value)) :
    (objectEntries entries).Perm entries :=
  ((perm_insertionSort _ _).append_right _).trans (filter_append_perm isIndexed entries)

@[simp]
theorem objectValues_singleton (entry : String × Value) : objectValues [entry] = [entry.2] := by
  unfold objectValues objectEntries
  cases isIndex : isIndexed entry <;> simp [isIndex]

theorem perm_objectValues (entries : List (String × Value)) :
    (objectValues entries).Perm (entries.map Prod.snd) :=
  (perm_objectEntries entries).map Prod.snd

theorem mem_objectValues_group_iff {Item : Type v}
    {key : Item → String} {change : Item → Option Value → Value}
    {items : List Item} {value : Value} : value ∈ objectValues (group key change items) ↔
      ∃ wanted, gather change (items.filter fun item => key item = wanted) = some value := by
  rw [(perm_objectValues _).mem_iff, mem_map]
  constructor
  · rintro ⟨⟨wanted, other⟩, member, rfl⟩
    exact ⟨wanted, (mem_group_iff _ _).1 member⟩
  · rintro ⟨wanted, gathered⟩
    exact ⟨(wanted, value), (mem_group_iff _ _).2 gathered, rfl⟩

theorem filter_objectEntries {entries : List (String × Value)}
    (distinct : (entries.map Prod.fst).Nodup) (keep : String × Value → Bool) :
    (objectEntries entries).filter keep = objectEntries (entries.filter keep) := by
  unfold objectEntries
  rw [filter_append, filter_filter, filter_filter]
  congr 1
  · have sorted := (pairwise_insertionSort IndexLe (entries.filter isIndexed)).filter keep
    have same : ((entries.filter isIndexed).insertionSort IndexLe).filter keep
      |>.Perm (entries.filter fun entry => isIndexed entry && keep entry) := by
      refine ((perm_insertionSort _ _).filter keep).trans ?_
      rw [filter_filter]
      exact List.Perm.of_eq (by congr 1; ext1; exact Bool.and_comm _ _)
    refine List.Perm.eq_of_pairwise ?_ sorted (pairwise_insertionSort IndexLe _)
      (same.trans (perm_insertionSort _ _).symm)
    intro first second ofFirst ofSecond below above
    have inFirst := same.mem_iff.1 ofFirst
    have inSecond := (mem_insertionSort _).1 ofSecond
    simp only [mem_filter, Bool.and_eq_true] at inFirst inSecond
    rcases Option.isSome_iff_exists.1 inFirst.2.1 with ⟨index, ofIndex⟩
    rcases Option.isSome_iff_exists.1 inSecond.2.1 with ⟨other, ofOther⟩
    have sameIndex : index = other := by
      have both := le_antisymm below above
      simpa [ofIndex, ofOther] using both
    subst sameIndex
    exact inj_on_of_nodup_map distinct inFirst.1 inSecond.1 (arrayIndex_inj ofIndex ofOther)
  · rw [filter_filter]
    congr 1
    ext1 entry
    exact Bool.and_comm _ _

end Order

end SysAnalyzer.Foundation
