import Mathlib.Data.List.Nodup
import SharedTable.Proofs.Remote.Attribute
import SharedTable.Remote.Call

/-!
Requests read back from their bodies: typed values as the values they stand for, and the work of a batch
as keys or changes. The readers know the wire format only, not the code that writes it.
-/

set_option autoImplicit false

namespace SharedTable.Remote

namespace Wire

def number? (text : String) : Option Value := (Number.ofText? text).map .number

mutual

def value? : Value → Option Value
  | .object [("NULL", .bool _)] => some .null
  | .object [("BOOL", .bool b)] => some (.bool b)
  | .object [("N", .string text)] => number? text
  | .object [("S", .string s)] => some (.string s)
  | .object [("SS", .array texts)] =>
    (texts.mapM Value.string?).map fun texts => .array (texts.map .string)
  | .object [("NS", .array texts)] =>
    (texts.mapM fun text : Value => text.string?.bind number?).map .array
  | .object [("L", .array items)] => (items? items).map .array
  | .object [("M", .object members)] => (members? members).map .object
  | _ => none

def items? : List Value → Option (List Value)
  | [] => some []
  | item :: rest => do return (← value? item) :: (← items? rest)

def members? : List (String × Value) → Option (List (String × Value))
  | [] => some []
  | (name, member) :: rest => do return (name, ← value? member) :: (← members? rest)

end

def item? : Value → Option Item
  | .object attributes => (members? attributes).map fun members => .ofList members
  | _ => none

def key? : Value → Option PrimaryKey
  | .object [("partitionKey", .object [("S", .string partition)]),
      ("sortKey", .object [("S", .string sort)])] => some ⟨partition, sort⟩
  | _ => none

end Wire

inductive Change where
  | put (item : Item)
  | delete (key : PrimaryKey)

def Change.entry : Change → WriteEntry
  | .put item => ⟨some (AttributeMap.ofItem item), none⟩
  | .delete key => ⟨none, some (AttributeMap.ofKey key)⟩

namespace Wire

def change? : Value → Option Change
  | .object [("PutRequest", .object [("Item", item)])] => (item? item).map .put
  | .object [("DeleteRequest", .object [("Key", key)])] => (key? key).map .delete
  | _ => none

def member? (body : Value) (name : String) : Option Value :=
  body.fields?.bind fun fields => fields[name]?

/-- What a batch asks for on a table, if it asks for nothing on any other. -/
def work? (table : String) : Value → Option Value
  | .object [("RequestItems", .object [(name, work)])] => if name = table then some work else none
  | _ => none

def changes? (table : String) (body : Value) : Option (List Change) :=
  match work? table body with
  | some (.array entries) => entries.mapM change?
  | _ => none

def keys? (table : String) (body : Value) : Option (List PrimaryKey) :=
  match (work? table body).bind fun work => member? work "Keys" with
  | some (.array keys) => keys.mapM key?
  | _ => none

theorem number?_eq (text : String) : number? text = (Attribute.numberValue text).toOption := by
  unfold number? Attribute.numberValue
  cases Number.ofText? text <;> rfl

theorem mapM_string? (texts : List String) :
    (texts.map Value.string).mapM Value.string? = some texts := by
  have each : ∀ text ∈ texts, (Value.string text).string? = some (id text) := fun _ _ => rfl
  rw [mapM_map_eq_some each, List.map_id]

mutual

theorem value?_wire : ∀ attr : Attribute, value? attr.wire = attr.toValue.toOption
  | .null _ | .bool _ | .string _ => by
    rw [Attribute.wire, Attribute.toValue]
    rfl
  | .number text => by
    rw [Attribute.wire, Attribute.toValue, ← number?_eq]
    rfl
  | .strings texts => by
    rw [Attribute.wire, Attribute.toValue, value?, mapM_string?]
    rfl
  | .numbers texts => by
    rw [Attribute.wire, Attribute.toValue, toOption_bind, toOption_mapM, value?, List.mapM_map]
    simp only [← number?_eq]
    exact Option.map_eq_bind
  | .binary _ | .binaries _ | .unknown => by simp only [Attribute.wire, Attribute.toValue]; rfl
  | .list items => by
    rw [Attribute.wire, Attribute.toValue, toOption_bind, ← items?_wireItems items, value?]
    exact Option.map_eq_bind
  | .map members => by
    rw [Attribute.wire, Attribute.toValue, toOption_bind, ← members?_wireMembers members, value?]
    exact Option.map_eq_bind

theorem items?_wireItems :
    ∀ items, items? (Attribute.wireItems items) = (Attribute.toItems items).toOption
  | [] => by
    rw [Attribute.wireItems, Attribute.toItems]
    rfl
  | item :: rest => by
    rw [Attribute.wireItems, Attribute.toItems, items?, value?_wire item, items?_wireItems rest]
    simp only [toOption_bind]
    rfl

theorem members?_wireMembers :
    ∀ members, members? (Attribute.wireMembers members) = (Attribute.toMembers members).toOption
  | [] => by
    rw [Attribute.wireMembers, Attribute.toMembers]
    rfl
  | (name, attr) :: rest => by
    rw [Attribute.wireMembers, Attribute.toMembers, members?, value?_wire attr,
      members?_wireMembers rest]
    simp only [toOption_bind]
    rfl

end

theorem item?_wire (attributes : AttributeMap) :
    item? attributes.wire = attributes.toItem.toOption := by
  rw [AttributeMap.wire, item?, members?_wireMembers, AttributeMap.toItem, toOption_bind]
  exact Option.map_eq_bind

theorem value?_ofValue (value : Value) : value? (Attribute.ofValue value).wire = some value := by
  rw [value?_wire, Attribute.toValue_ofValue]
  rfl

theorem item?_ofItem (item : Item) : item? (AttributeMap.ofItem item).wire = some item := by
  rw [item?_wire, AttributeMap.toItem_of_perm (.refl _)]
  rfl

section Members

variable {members : List (String × Option Value)} {name : String} {value? : Option Value}

theorem member?_ofFields (fields : Fields) (name : String) :
    member? (.ofFields fields) name = fields[name]? :=
  congrArg (fun held : Fields => held[name]?) (ofList_toList fields)

theorem member?_map {β : Type} (map : Std.ExtTreeMap String β) (write : β → Value) (name : String) :
    member? (.object (map.toList.map fun entry => (entry.1, write entry.2))) name =
      map[name]?.map write := by
  have once : ((map.toList.map fun entry => (entry.1, write entry.2)).map Prod.fst).Nodup := by
    rw [List.map_map]
    exact nodup_keys_toList map
  apply Option.ext
  intro value
  rw [member?, Value.fields?, Option.bind_some, Std.ExtTreeMap.ofList_eq_insertMany_empty,
    getElem?_insertMany_empty once]
  simp [Std.ExtTreeMap.mem_toList_iff_getElem?_eq_some, and_comm]

theorem member?_body (distinct : (members.map Prod.fst).Nodup) (member : (name, value?) ∈ members) :
    member? (body members) name = value? := by
  let entries := members.filterMap fun member => member.2.map fun value => (member.1, value)
  have held : ∀ value, (name, value) ∈ entries ↔ value? = some value := by
    intro value
    constructor
    · intro found
      obtain ⟨⟨other, other?⟩, also, same⟩ := List.mem_filterMap.mp found
      obtain ⟨_, present, paired⟩ := Option.map_eq_some_iff.mp same
      cases paired
      cases List.inj_on_of_nodup_map distinct member also rfl
      exact present
    · rintro rfl
      exact List.mem_filterMap.mpr ⟨_, member, rfl⟩
  have once : (entries.map Prod.fst).Nodup := by
    refine List.pairwise_map.mpr ((List.pairwise_map.mp distinct).filterMap _ ?_)
    intro one two differ first paired second also
    obtain ⟨_, _, rfl⟩ := Option.map_eq_some_iff.mp paired
    obtain ⟨_, _, rfl⟩ := Option.map_eq_some_iff.mp also
    exact differ
  rw [body, member?_ofFields, Std.ExtTreeMap.ofList_eq_insertMany_empty]
  apply Option.ext
  intro value
  rw [← held]
  exact getElem?_insertMany_empty once

end Members

theorem wire_ofItem (item : Item) : (AttributeMap.ofItem item).wire =
    .object (item.toList.map fun entry => (entry.1, (Attribute.ofValue entry.2).wire)) := by
  have members : ∀ entries : List (String × Value),
      Attribute.wireMembers (Attribute.ofMembers entries) =
        entries.map fun entry => (entry.1, (Attribute.ofValue entry.2).wire) := by
    intro entries
    induction entries with
    | nil => rw [Attribute.ofMembers, Attribute.wireMembers, List.map_nil]
    | cons entry rest ih => rw [Attribute.ofMembers, Attribute.wireMembers, ih, List.map_cons]
  exact congrArg Value.object (members item.toList)

theorem member?_ofItem (item : Item) (name : String) :
    (member? (AttributeMap.ofItem item).wire name).map Wire.value? = item[name]?.map some := by
  have held := member?_map item (fun value => (Attribute.ofValue value).wire) name
  rw [← wire_ofItem] at held
  rw [held, Option.map_map]
  exact congrArg (Option.map · _) (funext value?_ofValue)

section Work

variable (table : String)

theorem work?_pendingBody {ε : Type} (wire : ε → Value) (work : ε) :
    work? table (Call.pendingBody wire [(table, work)]) = some (wire work) := if_pos rfl

theorem change?_entry (change : Change) : change? change.entry.wire = some change := by
  cases change with
  | put item =>
    change (item? (AttributeMap.ofItem item).wire).map Change.put = _
    rw [item?_ofItem]
    rfl
  | delete key => rfl

theorem changes?_request (changes : List Change) :
    changes? table (Call.batchWrite [(table, changes.map Change.entry)]).request = some changes := by
  rw [changes?, Call.request, work?_pendingBody, List.map_map]
  have each : ∀ change ∈ changes, change? (change.entry.wire) = some (id change) :=
    fun change _ => change?_entry change
  exact (mapM_map_eq_some each).trans (congrArg some changes.map_id)

theorem keys?_request {request : KeyRequest} {keys : List PrimaryKey}
    (same : request.keys = keys.map AttributeMap.ofKey) :
    keys? table (Call.batchGet [(table, request)]).request = some keys := by
  have names : ["Keys", "AttributesToGet", "ConsistentRead", "ProjectionExpression",
      "ExpressionAttributeNames"].Nodup := by decide
  have held : member? request.wire "Keys" = some (.array (request.keys.map AttributeMap.wire)) :=
    member?_body names (.head _)
  rw [keys?, Call.request, work?_pendingBody, Option.bind_some, held, same, List.map_map]
  have each : ∀ key ∈ keys, key? (AttributeMap.ofKey key).wire = some (id key) := fun _ _ => rfl
  exact (mapM_map_eq_some each).trans (congrArg some keys.map_id)

end Work

end Wire

end SharedTable.Remote
