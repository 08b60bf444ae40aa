import Cdesktop.EntryMap
import Mathlib.Algebra.Ring.Nat
import Mathlib.Algebra.Ring.Int.Defs

namespace Cdesktop.McpConfig
open EntryMap (lookup lookup_eq_some lookup_eq_none)
set_option autoImplicit true

/-- What the code asks of an `f64`: the conversion of an integer and the text of `to_string`. -/
class Float64 (F : Type) where
  ofInt : Int → F
  display : F → String

/-- A number keeps its kind: `1` and `1.0` are different numbers. -/
inductive Number (F : Type) where
  | posInt (n : Nat)
  | negInt (i : Int)
  | float (f : F)

/-- A configuration, its objects in the order in which their members are iterated. -/
inductive Value (F : Type) where
  | null
  | bool (b : Bool)
  | number (n : Number F)
  | string (s : String)
  | array (values : List (Value F))
  | object (members : List (String × Value F))

/-- The syntax tree without its trivia; an object may name a property more than once. -/
inductive Cst where
  | null
  | bool (b : Bool)
  | number (text : String)
  | string (s : String)
  | array (elements : List Cst)
  | object (properties : List (String × Cst))

/-- A value up to the order of the members of its objects, as `==` compares it. -/
inductive Json (F : Type) where
  | null
  | bool (b : Bool)
  | number (n : Number F)
  | string (s : String)
  | array (values : List (Json F))
  | object (fields : String → Option (Json F))

abbrev Properties := List (String × Cst)

@[elab_as_elim, induction_eliminator]
theorem Value.induct {P : Value F → Prop} (null : P .null) (bool : ∀ b, P (.bool b))
    (number : ∀ n, P (.number n)) (string : ∀ s, P (.string s))
    (array : ∀ values, (∀ v ∈ values, P v) → P (.array values))
    (object : ∀ members, (∀ m ∈ members, P m.2) → P (.object members)) : ∀ v, P v
  | .null => null
  | .bool b => bool b
  | .number n => number n
  | .string s => string s
  | .array values => array values fun v _ =>
      Value.induct null bool number string array object v
  | .object members => object members fun m _ =>
      Value.induct null bool number string array object m.2
termination_by v => sizeOf v
decreasing_by
  · have h := List.sizeOf_lt_of_mem ‹v ∈ values›
    simp only [Value.array.sizeOf_spec]
    omega
  · have h := List.sizeOf_lt_of_mem ‹m ∈ members›
    cases m
    simp only [Value.object.sizeOf_spec, Prod.mk.sizeOf_spec] at h ⊢
    omega

mutual

def Value.json : Value F → Json F
  | .null => .null
  | .bool b => .bool b
  | .number n => .number n
  | .string s => .string s
  | .array values => .array (jsons values)
  | .object members => .object (jsonFields members)

def jsons : List (Value F) → List (Json F)
  | [] => []
  | v :: values => v.json :: jsons values

def jsonFields : List (String × Value F) → String → Option (Json F)
  | [], _ => none
  | (key, v) :: members, name => if name = key then some v.json else jsonFields members name

end

theorem jsons_eq (values : List (Value F)) : jsons values = values.map Value.json := by
  induction values with
  | nil => rfl
  | cons v values ih => simp [jsons, ih]

theorem jsonFields_eq (members : List (String × Value F)) (name : String) :
    jsonFields members name = (lookup name members).map Value.json := by
  induction members with
  | nil => rfl
  | cons m members ih =>
    obtain ⟨key, v⟩ := m
    by_cases h : name = key
    · simp [jsonFields, lookup, h]
    · simp [jsonFields, h, ih, lookup, Ne.symm h]

mutual

/-- No object of the value has a key twice. -/
def Value.Distinct : Value F → Prop
  | .array values => AllDistinct values
  | .object members => (members.map (·.1)).Nodup ∧ MembersDistinct members
  | _ => True

def AllDistinct : List (Value F) → Prop
  | [] => True
  | v :: values => v.Distinct ∧ AllDistinct values

def MembersDistinct : List (String × Value F) → Prop
  | [] => True
  | (_, v) :: members => v.Distinct ∧ MembersDistinct members

end

theorem allDistinct_iff {values : List (Value F)} :
    AllDistinct values ↔ ∀ v ∈ values, v.Distinct := by
  induction values with
  | nil => simp [AllDistinct]
  | cons v values ih => simp [AllDistinct, ih]

theorem membersDistinct_iff {members : List (String × Value F)} :
    MembersDistinct members ↔ ∀ m ∈ members, m.2.Distinct := by
  induction members with
  | nil => simp [MembersDistinct]
  | cons m members ih => simp [MembersDistinct, ih]

structure Map (F : Type) where
  members : List (String × Value F)
  distinct : (Value.object members).Distinct

/-- The parser: the tree of a text, the text of a tree, and the value of a number's text. -/
structure Jsonc (F : Type) where
  parse : String → Option (Option Cst)
  print : Option Cst → String
  number : String → Json F

mutual

/-- The value of a tree; of the properties of one name the last counts. -/
def Cst.json (lib : Jsonc F) : Cst → Json F
  | .null => .null
  | .bool b => .bool b
  | .number text => lib.number text
  | .string s => .string s
  | .array elements => .array (cstJsons lib elements)
  | .object properties => .object (cstFields lib properties)

def cstJsons (lib : Jsonc F) : List Cst → List (Json F)
  | [] => []
  | c :: elements => c.json lib :: cstJsons lib elements

def cstFields (lib : Jsonc F) : Properties → String → Option (Json F)
  | [], _ => none
  | (key, c) :: properties, name =>
    match cstFields lib properties name with
    | some j => some j
    | none => if name = key then some (c.json lib) else none

end

/-- The values of the properties of a name, in order. -/
def Properties.values (properties : Properties) (name : String) : List Cst :=
  (properties.filter fun p => p.1 = name).map (·.2)

def parseToSerdeValue (lib : Jsonc F) (text : String) : Option (Option (Json F)) :=
  (lib.parse text).map fun root => root.map (Cst.json lib)

/-- `CstObject::get`: the first property of the name. -/
def Properties.get (properties : Properties) (name : String) : Option Cst :=
  (properties.values name).head?

/-- `CstObjectProp::set_value`, on the property that `get` gives. -/
def Properties.setValue (name : String) (c : Cst) : Properties → Properties
  | [] => []
  | (key, old) :: properties =>
    if key = name then (key, c) :: properties
    else (key, old) :: Properties.setValue name c properties

/-- `CstObjectProp::remove`, on the property that `get` gives. -/
def Properties.remove (name : String) (properties : Properties) : Properties :=
  properties.eraseP fun p => p.1 = name

/-- `CstObject::append`. -/
def Properties.append (properties : Properties) (name : String) (c : Cst) : Properties :=
  properties ++ [(name, c)]

def Number.asI64 : Number F → Option Int
  | .posInt n => if n < 2 ^ 63 then some n else none
  | .negInt i => some i
  | .float _ => none

def Number.asF64 [Float64 F] : Number F → F
  | .posInt n => Float64.ofInt n
  | .negInt i => Float64.ofInt i
  | .float f => f

def Number.text [Float64 F] (n : Number F) : String :=
  match n.asI64 with
  | some i => toString i
  | none => Float64.display n.asF64

mutual

def serdeJsonToCstInput [Float64 F] : Value F → Cst
  | .null => .null
  | .bool b => .bool b
  | .number n => .number n.text
  | .string s => .string s
  | .array values => .array (inputs values)
  | .object members => .object (memberInputs members)

def inputs [Float64 F] : List (Value F) → List Cst
  | [] => []
  | v :: values => serdeJsonToCstInput v :: inputs values

def memberInputs [Float64 F] : List (String × Value F) → Properties
  | [] => []
  | (key, v) :: members => (key, serdeJsonToCstInput v) :: memberInputs members

end

/-- The first loop, over the names that the object had before it. -/
def removeMissing (properties : Properties) (members : List (String × Value F)) : Properties :=
  (properties.map (·.1)).foldl
    (fun properties key =>
      if key ∈ members.map (·.1) then properties
      else match properties.get key with
        | some _ => properties.remove key
        | none => properties)
    properties

mutual

def mergeValue [Float64 F] (existing : Option Cst) : Value F → Cst
  | .object members =>
    match existing with
    | some (.object properties) =>
      .object (mergeMembers (removeMissing properties members) members)
    | _ => serdeJsonToCstInput (.object members)
  | v => serdeJsonToCstInput v

def mergeMembers [Float64 F] (properties : Properties) : List (String × Value F) → Properties
  | [] => properties
  | (key, v) :: members =>
    match properties.get key with
    | some existing =>
      mergeMembers (properties.setValue key (mergeValue (some existing) v)) members
    | none => mergeMembers (properties.append key (serdeJsonToCstInput v)) members

end

def deepMergeCstObject [Float64 F] (properties : Properties) (members : List (String × Value F)) :
    Properties :=
  mergeMembers (removeMissing properties members) members

/-- `CstRootNode::object_value_or_set`. -/
def objectValueOrSet : Option Cst → Properties
  | some (.object properties) => properties
  | _ => []

def updateJsoncContent [Float64 F] (lib : Jsonc F) (currentContent : String)
    (newConfig : Value F) : String :=
  let root := match lib.parse currentContent with
    | some root => root
    | none => (lib.parse "\x7b\x7d").getD none
  let properties := objectValueOrSet root
  lib.print <| some <| .object <|
    match newConfig with
    | .object members => deepMergeCstObject properties members
    | _ => properties

mutual

def Value.numbers : Value F → List (Number F)
  | .number n => [n]
  | .array values => allNumbers values
  | .object members => memberNumbers members
  | _ => []

def allNumbers : List (Value F) → List (Number F)
  | [] => []
  | v :: values => v.numbers ++ allNumbers values

def memberNumbers : List (String × Value F) → List (Number F)
  | [] => []
  | (_, v) :: members => v.numbers ++ memberNumbers members

end

/-- Every number of the value is read back from the text written for it. -/
def Value.ReadsBack [Float64 F] (lib : Jsonc F) (v : Value F) : Prop :=
  ∀ n ∈ v.numbers, lib.number n.text = .number n

mutual

def Merges [Float64 F] (lib : Jsonc F) (existing : Option Cst) : Value F → Prop
  | .object members =>
    match existing with
    | some (.object properties) => MembersMerge lib properties members
    | _ => (Value.object members).ReadsBack lib
  | v => v.ReadsBack lib

/-- A repeated property keeps its last value, which has to be the new one already. -/
def MembersMerge [Float64 F] (lib : Jsonc F) (properties : Properties) :
    List (String × Value F) → Prop
  | [] => True
  | (key, v) :: members =>
    (match (properties.values key).tail.getLast? with
      | some last => last.json lib = v.json
      | none => Merges lib (properties.get key) v) ∧
    MembersMerge lib properties members

end

section Lookup

theorem lookup_map_eq_iff {members : List (String × α)} (h : (members.map (·.1)).Nodup)
    {f : String → α → β} {g : α → β} :
    ((fun key => (lookup key members).map (f key)) = fun key => (lookup key members).map g) ↔
      ∀ m ∈ members, f m.1 m.2 = g m.2 := by
  constructor
  · rintro he ⟨key, v⟩ hm
    have hk := congrFun he key
    simpa [(lookup_eq_some h).2 hm] using hk
  · intro he
    funext key
    cases hl : lookup key members with
    | none => rfl
    | some v => simpa using he _ ((lookup_eq_some h).1 hl)

end Lookup

section Values
variable (properties : Properties) (key name : String) (c : Cst)

@[simp]
theorem values_nil : Properties.values [] name = [] := rfl

theorem values_cons : Properties.values ((key, c) :: properties) name =
    if key = name then c :: properties.values name else properties.values name := by
  by_cases h : key = name <;> simp [Properties.values, h]

theorem values_setValue : (properties.setValue key c).values name =
    if key = name then (properties.values name).modifyHead fun _ => c
    else properties.values name := by
  induction properties with
  | nil => simp [Properties.setValue]
  | cons p properties ih =>
    obtain ⟨k, old⟩ := p
    by_cases hk : k = key
    · subst hk
      by_cases hn : k = name <;> simp [Properties.setValue, values_cons, hn]
    · rw [Properties.setValue, if_neg hk, values_cons, values_cons, ih]
      by_cases hn : k = name
      · subst hn
        simp [Ne.symm hk]
      · simp [hn]

theorem values_remove : (properties.remove key).values name =
    if key = name then (properties.values name).tail else properties.values name := by
  induction properties with
  | nil => simp [Properties.remove]
  | cons p properties ih =>
    obtain ⟨k, old⟩ := p
    by_cases hk : k = key
    · subst hk
      by_cases hn : k = name <;> simp [Properties.remove, values_cons, hn]
    · have hr : Properties.remove key ((k, old) :: properties) =
          (k, old) :: Properties.remove key properties := by
        simp [Properties.remove, hk]
      rw [hr, values_cons, values_cons, ih]
      by_cases hn : k = name
      · subst hn
        simp [Ne.symm hk]
      · simp [hn]

theorem values_append : (properties.append key c).values name =
    properties.values name ++ if key = name then [c] else [] := by
  by_cases h : key = name <;> simp [Properties.append, Properties.values, h]

theorem cstFields_eq (lib : Jsonc F) : cstFields lib properties name =
    (properties.values name).getLast?.map (Cst.json lib) := by
  induction properties with
  | nil => rfl
  | cons p properties ih =>
    obtain ⟨k, old⟩ := p
    simp only [cstFields, ih, values_cons]
    by_cases h : name = k
    · subst h
      cases hl : (Properties.values properties name).getLast? with
      | none => simp [List.getLast?_cons, hl]
      | some last => simp [List.getLast?_cons, hl]
    · simp only [h, if_false, Ne.symm h]
      cases (Properties.values properties name).getLast?.map (Cst.json lib) <;> rfl

end Values

theorem get_eq (properties : Properties) (name : String) :
    properties.get name = (properties.values name).head? := rfl

theorem values_removeLoop (members : List (String × Value F)) (name : String) (keys : List String)
    (properties : Properties) :
    (keys.foldl (fun properties key =>
      if key ∈ members.map (·.1) then properties
      else match properties.get key with
        | some _ => properties.remove key
        | none => properties) properties).values name =
      if name ∈ members.map (·.1) then properties.values name
      else (properties.values name).drop (keys.count name) := by
  induction keys generalizing properties with
  | nil => simp
  | cons key keys ih =>
    rw [List.foldl_cons, ih]
    by_cases hn : name ∈ members.map (·.1)
    · simp only [hn, if_true]
      by_cases hk : key ∈ members.map (·.1)
      · simp only [hk, if_true]
      · have hne : key ≠ name := fun h => hk (h ▸ hn)
        simp only [hk, if_false]
        split
        · simp [values_remove, hne]
        · rfl
    · simp only [hn, if_false]
      by_cases he : key = name
      · subst he
        simp only [hn, if_false, List.count_cons_self]
        split
        · simp [values_remove, List.drop_tail]
        · rename_i hg
          rw [get_eq, List.head?_eq_none_iff] at hg
          simp [hg]
      · rw [List.count_cons_of_ne he]
        split
        · rfl
        · split
          · simp [values_remove, he]
          · rfl

theorem values_removeMissing (properties : Properties) (members : List (String × Value F))
    (name : String) : (removeMissing properties members).values name =
      if name ∈ members.map (·.1) then properties.values name else [] := by
  have hc : (properties.map (·.1)).count name = (properties.values name).length := by
    rw [List.count, List.countP_map, List.countP_eq_length_filter, Properties.values,
      List.length_map]
    congr 1
  rw [removeMissing, values_removeLoop, hc, List.drop_length]

theorem removeMissing_eq_self {properties : Properties} {members : List (String × Value F)}
    (h : ∀ p ∈ properties, p.1 ∈ members.map (·.1)) :
    removeMissing properties members = properties := by
  have hfold : ∀ (keys : List String), (∀ key ∈ keys, key ∈ members.map (·.1)) →
      keys.foldl (fun properties key =>
        if key ∈ members.map (·.1) then properties
        else match properties.get key with
          | some _ => properties.remove key
          | none => properties) properties = properties := by
    intro keys hk
    induction keys with
    | nil => rfl
    | cons key keys ih =>
      rw [List.foldl_cons, if_pos (hk key List.mem_cons_self)]
      exact ih fun k hm => hk k (List.mem_cons_of_mem _ hm)
  exact hfold _ fun key hk => by
    obtain ⟨p, hp, rfl⟩ := List.mem_map.1 hk
    exact h p hp

theorem numbers_object {members : List (String × Value F)} {n : Number F} :
    n ∈ (Value.object members).numbers ↔ ∃ m ∈ members, n ∈ m.2.numbers := by
  have h : n ∈ memberNumbers members ↔ ∃ m ∈ members, n ∈ m.2.numbers := by
    induction members with
    | nil => simp [memberNumbers]
    | cons m members ih => simp [memberNumbers, ih]
  exact h

theorem numbers_array {values : List (Value F)} {n : Number F} :
    n ∈ (Value.array values).numbers ↔ ∃ v ∈ values, n ∈ v.numbers := by
  have h : n ∈ allNumbers values ↔ ∃ v ∈ values, n ∈ v.numbers := by
    induction values with
    | nil => simp [allNumbers]
    | cons v values ih => simp [allNumbers, ih]
  exact h

section Merge
variable [Float64 F]

theorem readsBack_array {lib : Jsonc F} {values : List (Value F)} :
    (Value.array values).ReadsBack lib ↔ ∀ v ∈ values, v.ReadsBack lib := by
  simp only [Value.ReadsBack, numbers_array]
  exact ⟨fun h v hv n hn => h n ⟨v, hv, hn⟩, fun h n ⟨v, hv, hn⟩ => h v hv n hn⟩

theorem readsBack_object {lib : Jsonc F} {members : List (String × Value F)} :
    (Value.object members).ReadsBack lib ↔ ∀ m ∈ members, m.2.ReadsBack lib := by
  simp only [Value.ReadsBack, numbers_object]
  exact ⟨fun h m hm n hn => h n ⟨m, hm, hn⟩, fun h n ⟨m, hm, hn⟩ => h m hm n hn⟩

theorem cstJsons_inputs (lib : Jsonc F) (values : List (Value F)) :
    cstJsons lib (inputs values) = values.map fun v => (serdeJsonToCstInput v).json lib := by
  induction values with
  | nil => rfl
  | cons v values ih => simp [inputs, cstJsons, ih]

theorem values_memberInputs {members : List (String × Value F)}
    (h : (members.map (·.1)).Nodup) (name : String) :
    (memberInputs members).values name =
      ((lookup name members).map serdeJsonToCstInput).toList := by
  induction members with
  | nil => rfl
  | cons m members ih =>
    obtain ⟨key, v⟩ := m
    simp only [List.map_cons, List.nodup_cons] at h
    rw [memberInputs, values_cons, ih h.2]
    by_cases hk : key = name
    · subst hk
      simp [lookup, lookup_eq_none.2 h.1]
    · simp [hk, lookup]

theorem serdeJsonToCstInput_json (lib : Jsonc F) {v : Value F} (h : v.Distinct) :
    (serdeJsonToCstInput v).json lib = v.json ↔ v.ReadsBack lib := by
  induction v with
  | array values ih =>
    rw [Value.Distinct, allDistinct_iff] at h
    rw [serdeJsonToCstInput, Cst.json, Value.json, cstJsons_inputs, jsons_eq, readsBack_array,
      Json.array.injEq, List.map_inj_left]
    exact forall₂_congr fun v hv => ih v hv (h v hv)
  | object members ih =>
    rw [Value.Distinct, membersDistinct_iff] at h
    have hf : cstFields lib (memberInputs members) = fun key =>
        (lookup key members).map fun v => (serdeJsonToCstInput v).json lib := by
      funext key
      rw [cstFields_eq, values_memberInputs h.1]
      cases lookup key members <;> rfl
    have hj : jsonFields members = fun key => (lookup key members).map Value.json :=
      funext (jsonFields_eq members)
    rw [serdeJsonToCstInput, Cst.json, Value.json, hf, hj, readsBack_object, Json.object.injEq,
      lookup_map_eq_iff h.1]
    exact forall₂_congr fun m hm => ih m hm (h.2 m hm)
  | _ => simp [serdeJsonToCstInput, Cst.json, Value.json, Value.ReadsBack, Value.numbers]

@[simp]
theorem mergeValue_none (v : Value F) : mergeValue none v = serdeJsonToCstInput v := by
  cases v <;> rfl

theorem values_mergeMembers {members : List (String × Value F)}
    (h : (members.map (·.1)).Nodup) (properties : Properties) (name : String) :
    (mergeMembers properties members).values name =
      match lookup name members with
      | some v => mergeValue (properties.get name) v :: (properties.values name).tail
      | none => properties.values name := by
  induction members generalizing properties with
  | nil => rfl
  | cons m members ih =>
    obtain ⟨key, v⟩ := m
    simp only [List.map_cons, List.nodup_cons] at h
    have hstep : ∀ properties' : Properties,
        (∀ name, properties'.values name =
          if key = name then mergeValue (properties.get key) v :: (properties.values key).tail
          else properties.values name) →
        (mergeMembers properties' members).values name =
          match lookup name ((key, v) :: members) with
          | some v => mergeValue (properties.get name) v :: (properties.values name).tail
          | none => properties.values name := by
      intro properties' hp
      rw [ih h.2]
      by_cases hk : key = name
      · subst hk
        simp [lookup, lookup_eq_none.2 h.1, hp]
      · simp only [lookup, get_eq, hp, hk, if_false]
    rw [mergeMembers]
    cases hg : properties.get key with
    | some existing =>
      refine hstep _ fun name => ?_
      rw [values_setValue, hg]
      by_cases hk : key = name
      · subst hk
        rw [get_eq] at hg
        obtain ⟨l, hl⟩ := List.head?_eq_some_iff.1 hg
        simp [hl]
      · simp [hk]
    | none =>
      refine hstep _ fun name => ?_
      rw [values_append, hg, mergeValue_none]
      by_cases hk : key = name
      · subst hk
        rw [get_eq, List.head?_eq_none_iff] at hg
        simp [hg]
      · simp [hk]

theorem values_deepMergeCstObject {members : List (String × Value F)}
    (h : (members.map (·.1)).Nodup) (properties : Properties) (name : String) :
    (deepMergeCstObject properties members).values name =
      match lookup name members with
      | some v => mergeValue (properties.get name) v :: (properties.values name).tail
      | none => [] := by
  rw [deepMergeCstObject, values_mergeMembers h, get_eq, get_eq, values_removeMissing]
  cases hl : lookup name members with
  | none => rw [if_neg (lookup_eq_none.1 hl)]
  | some v =>
    have hm : name ∈ members.map (·.1) := List.mem_map_of_mem ((lookup_eq_some h).1 hl)
    rw [if_pos hm]

theorem membersMerge_iff {lib : Jsonc F} {properties : Properties}
    {members : List (String × Value F)} : MembersMerge lib properties members ↔
      ∀ m ∈ members, match (properties.values m.1).tail.getLast? with
        | some last => last.json lib = m.2.json
        | none => Merges lib (properties.get m.1) m.2 := by
  induction members with
  | nil => simp [MembersMerge]
  | cons m members ih => simp [MembersMerge, ih]

theorem mergeValue_json (lib : Jsonc F) {v : Value F} (h : v.Distinct) (existing : Option Cst) :
    (mergeValue existing v).json lib = v.json ↔ Merges lib existing v := by
  induction v generalizing existing with
  | object members ih =>
    match existing with
    | some (.object properties) =>
      have hd := h
      rw [Value.Distinct, membersDistinct_iff] at hd
      have hf : cstFields lib (deepMergeCstObject properties members) = fun key =>
          (lookup key members).map fun v =>
            ((Properties.values properties key).tail.getLast?.getD
              (mergeValue (Properties.get properties key) v)).json lib := by
        funext key
        rw [cstFields_eq, values_deepMergeCstObject hd.1]
        cases lookup key members with
        | none => rfl
        | some v => simp [List.getLast?_cons]
      have hj : jsonFields members = fun key => (lookup key members).map Value.json :=
        funext (jsonFields_eq members)
      change Json.object (cstFields lib (deepMergeCstObject properties members)) =
        Json.object (jsonFields members) ↔ MembersMerge lib properties members
      rw [hf, hj, Json.object.injEq, lookup_map_eq_iff hd.1
        (f := fun key v => ((Properties.values properties key).tail.getLast?.getD
          (mergeValue (Properties.get properties key) v)).json lib), membersMerge_iff]
      refine forall₂_congr fun m hm => ?_
      cases (Properties.values properties m.1).tail.getLast? with
      | some last => rfl
      | none => exact ih m hm (hd.2 m hm) _
    | none | some .null | some (.bool _) | some (.number _) | some (.string _)
    | some (.array _) => exact serdeJsonToCstInput_json lib h
  | _ => exact serdeJsonToCstInput_json lib h

theorem setValue_self {properties : Properties} {key : String} {c : Cst}
    (h : properties.get key = some c) : properties.setValue key c = properties := by
  induction properties with
  | nil => rfl
  | cons p properties ih =>
    obtain ⟨k, old⟩ := p
    rw [get_eq, values_cons] at h
    by_cases hk : k = key
    · rw [if_pos hk, List.head?_cons, Option.some.injEq] at h
      rw [Properties.setValue, if_pos hk, h]
    · rw [if_neg hk] at h
      rw [Properties.setValue, if_neg hk, ih h]

theorem mergeMembers_eq_self {properties : Properties} {members : List (String × Value F)}
    (h : ∀ m ∈ members, ∃ c, properties.get m.1 = some c ∧ mergeValue (some c) m.2 = c) :
    mergeMembers properties members = properties := by
  induction members with
  | nil => rfl
  | cons m members ih =>
    obtain ⟨c, hc, hm⟩ := h m List.mem_cons_self
    rw [mergeMembers, hc]
    simp only [hm]
    rw [setValue_self hc]
    exact ih fun m' hm' => h m' (List.mem_cons_of_mem _ hm')

theorem deepMergeCstObject_eq_self {properties : Properties} {members : List (String × Value F)}
    (hk : ∀ name, lookup name members = none → properties.values name = [])
    (h : ∀ m ∈ members, ∃ c, properties.get m.1 = some c ∧ mergeValue (some c) m.2 = c) :
    deepMergeCstObject properties members = properties := by
  have hn : ∀ p ∈ properties, p.1 ∈ members.map (·.1) := by
    intro p hp
    by_contra hc
    have hv := hk p.1 (lookup_eq_none.2 hc)
    rw [Properties.values, List.map_eq_nil_iff, List.filter_eq_nil_iff] at hv
    exact hv p hp (by simp)
  rw [deepMergeCstObject, removeMissing_eq_self hn, mergeMembers_eq_self h]

theorem mergeValue_mergeValue {v : Value F} (h : v.Distinct) (existing : Option Cst) :
    mergeValue (some (mergeValue existing v)) v = mergeValue existing v := by
  induction v generalizing existing with
  | null => rfl
  | bool b => rfl
  | string s => rfl
  | number n => rfl
  | array values => rfl
  | object members ih =>
    rw [Value.Distinct, membersDistinct_iff] at h
    have hwritten : deepMergeCstObject (memberInputs members) members = memberInputs members := by
      refine deepMergeCstObject_eq_self (fun name hl => ?_) fun m hm => ?_
      · rw [values_memberInputs h.1, hl]
        rfl
      · refine ⟨serdeJsonToCstInput m.2, ?_, ?_⟩
        · rw [get_eq, values_memberInputs h.1, (lookup_eq_some h.1).2 hm]
          rfl
        · simpa using ih m hm (h.2 m hm) none
    match existing with
    | some (.object properties) =>
      have hmerged : deepMergeCstObject (deepMergeCstObject properties members) members =
          deepMergeCstObject properties members := by
        refine deepMergeCstObject_eq_self (fun name hl => ?_) fun m hm => ?_
        · rw [values_deepMergeCstObject h.1, hl]
        · refine ⟨mergeValue (Properties.get properties m.1) m.2, ?_, ih m hm (h.2 m hm) _⟩
          rw [get_eq, values_deepMergeCstObject h.1, (lookup_eq_some h.1).2 hm]
          rfl
      exact congrArg Cst.object hmerged
    | none | some .null | some (.bool _) | some (.number _) | some (.string _)
    | some (.array _) => exact congrArg Cst.object hwritten

end Merge

/-- The text printed for a tree parses to that tree. -/
def Jsonc.RoundTrips (lib : Jsonc F) (root : Option Cst) : Prop :=
  lib.parse (lib.print root) = some root

def updated [Float64 F] (root : Option Cst) (new : Map F) : Option Cst :=
  some (.object (deepMergeCstObject (objectValueOrSet root) new.members))

theorem updateJsoncContent_of_parse [Float64 F] {lib : Jsonc F} {text : String}
    {root : Option Cst} (h : lib.parse text = some root) (new : Map F) :
    updateJsoncContent lib text (.object new.members) = lib.print (updated root new) := by
  simp only [updateJsoncContent, h, updated]

theorem updated_updated [Float64 F] (root : Option Cst) (new : Map F) :
    updated (updated root new) new = updated root new := by
  have h := mergeValue_mergeValue new.distinct (some (.object (objectValueOrSet root)))
  exact congrArg some h

/-- The updated text reads as the new configuration exactly when no repeated name keeps another
value and every number written is read back; updating it again never changes it. -/
theorem updateJsoncContent_iff [Float64 F] (lib : Jsonc F) (text : String) (root : Option Cst)
    (new : Map F) (hparse : lib.parse text = some root)
    (hprint : lib.RoundTrips (updated root new)) :
    parseToSerdeValue lib (updateJsoncContent lib text (.object new.members)) =
        some (some (Value.object new.members).json) ∧
      updateJsoncContent lib (updateJsoncContent lib text (.object new.members))
        (.object new.members) = updateJsoncContent lib text (.object new.members) ↔
    MembersMerge lib (objectValueOrSet root) new.members := by
  have htwice : updateJsoncContent lib (updateJsoncContent lib text (.object new.members))
      (.object new.members) = updateJsoncContent lib text (.object new.members) := by
    rw [updateJsoncContent_of_parse hparse, updateJsoncContent_of_parse hprint, updated_updated]
  have hread := mergeValue_json lib new.distinct (some (.object (objectValueOrSet root)))
  have hroot : updated root new = some (mergeValue (some (.object (objectValueOrSet root)))
      (.object new.members)) := rfl
  rw [and_iff_left htwice, updateJsoncContent_of_parse hparse, parseToSerdeValue, hprint, hroot,
    Option.map_some, Option.map_some, Option.some.injEq, Option.some.injEq]
  exact hread

section Sample

local instance : Float64 Int where
  ofInt i := i
  display i := toString i

def repeatedText : String := "\x7b\"a\":1,\"a\":2\x7d"

def repeatedTree : Option Cst := some (.object [("a", .number "1"), ("a", .number "2")])

def updatedText : String := "\x7b\"a\":3,\"a\":2\x7d"

def updatedTree : Option Cst := some (.object [("a", .number "3"), ("a", .number "2")])

def sampleJsonc : Jsonc Int where
  parse text :=
    if text = repeatedText then some repeatedTree
    else if text = updatedText then some updatedTree
    else none
  print root :=
    match root with
    | some (.object [("a", .number "3"), ("a", .number "2")]) => updatedText
    | some (.object [("a", .number "1"), ("a", .number "2")]) => repeatedText
    | _ => ""
  number text :=
    if text = "2" then .number (.posInt 2)
    else if text = "3" then .number (.posInt 3)
    else .string text

def sampleMap : Map Int := ⟨[("a", .number (.posInt 3))], by simp [Value.Distinct, MembersDistinct]⟩

theorem sampleJsonc_parse : sampleJsonc.parse repeatedText = some repeatedTree := by
  simp [sampleJsonc]

theorem updated_repeatedTree : updated repeatedTree sampleMap = updatedTree := by
  have htext : (Number.posInt 3 : Number Int).text = "3" := by decide
  simp [updated, updatedTree, repeatedTree, objectValueOrSet, deepMergeCstObject, sampleMap,
    removeMissing, mergeMembers, Properties.get, Properties.values, Properties.setValue,
    mergeValue, serdeJsonToCstInput, htext]

theorem sampleJsonc_roundTrips : sampleJsonc.RoundTrips updatedTree := by
  simp [Jsonc.RoundTrips, sampleJsonc, updatedTree, updatedText, repeatedText]

theorem updateJsoncContent_iff_sample :
    parseToSerdeValue sampleJsonc (updateJsoncContent sampleJsonc repeatedText
        (.object sampleMap.members)) = some (some (Value.object sampleMap.members).json) ∧
      updateJsoncContent sampleJsonc (updateJsoncContent sampleJsonc repeatedText
        (.object sampleMap.members)) (.object sampleMap.members) =
        updateJsoncContent sampleJsonc repeatedText (.object sampleMap.members) ↔
    MembersMerge sampleJsonc (objectValueOrSet repeatedTree) sampleMap.members :=
  updateJsoncContent_iff sampleJsonc repeatedText repeatedTree sampleMap sampleJsonc_parse
    (updated_repeatedTree ▸ sampleJsonc_roundTrips)

/-- The first of the two properties is set, the second one is read. -/
theorem updateJsoncContent_not :
    sampleJsonc.parse repeatedText = some repeatedTree ∧
      sampleJsonc.RoundTrips (updated repeatedTree sampleMap) ∧
      parseToSerdeValue sampleJsonc (updateJsoncContent sampleJsonc repeatedText
        (.object sampleMap.members)) ≠ some (some (Value.object sampleMap.members).json) := by
  have hprint := updated_repeatedTree ▸ sampleJsonc_roundTrips
  refine ⟨sampleJsonc_parse, hprint, fun h => ?_⟩
  rw [updateJsoncContent_of_parse sampleJsonc_parse, parseToSerdeValue, hprint,
    updated_repeatedTree, Option.map_some, Option.some.injEq, updatedTree, Option.map_some,
    Option.some.injEq, Cst.json, Value.json, Json.object.injEq] at h
  have ha := congrFun h "a"
  simp [cstFields, jsonFields, sampleMap, Cst.json, Value.json, sampleJsonc] at ha

end Sample

end Cdesktop.McpConfig
