import SharedTable.Proofs.Expression.Conditions
import SharedTable.Proofs.Remote.Requests

set_option autoImplicit false

namespace SharedTable.Remote

open Expression

structure Rendering where
  key : String
  filter : Option String
  names : TextMap
  values : Fields

namespace Rendering

def ofConditions (condition : KeyCondition) (filter : Filter) : Rendering where
  key := condition.expression.text
  filter := if filter.isEmpty then none else some filter.expression.text
  names := condition.expression.names.insertMany filter.expression.names.toList
  values := condition.expression.values.insertMany filter.expression.values.toList

def namesIn (rendering : Rendering) : List String :=
  Expression.namesIn rendering.key ++ rendering.filter.elim [] Expression.namesIn

def valuesIn (rendering : Rendering) : List String :=
  Expression.valuesIn rendering.key ++ rendering.filter.elim [] Expression.valuesIn

/-- Whether a rendering tells the conditions, with placeholders that do not get in each other's way. -/
structure Tells (rendering : Rendering) (condition : KeyCondition) (filter : Filter) : Prop where
  names_defined : ∀ name, name ∈ rendering.names ↔ name ∈ rendering.namesIn
  values_defined : ∀ value, value ∈ rendering.values ↔ value ∈ rendering.valuesIn
  names_apart : rendering.namesIn.Nodup
  values_apart : rendering.valuesIn.Nodup
  key : (meaning? rendering.names rendering.values rendering.key).bind KeyCondition.parts? =
    some condition.parts
  filter : rendering.filter.elim (some []) (meaning? rendering.names rendering.values) = some filter
  isTrueOf_iff : ∀ (item : Fields) (partition key : String),
    item.text? condition.partitionAttr = some partition → item.text? condition.sortAttr = some key →
      (IsTrueOf rendering.names rendering.values rendering.key item ↔
        partition = condition.partitionKey ∧ ∀ wanted ∈ condition.sort, wanted.holds key)

/--
Whether a body carries a rendering: its texts, and in two maps, under each placeholder and nowhere else,
the attribute and the value that it stands for.
-/
structure CarriedIn (rendering : Rendering) (body : Value) : Prop where
  key : Wire.member? body "KeyConditionExpression" = some (.string rendering.key)
  filter : Wire.member? body "FilterExpression" = rendering.filter.map .string
  names : ∃ names, Wire.member? body "ExpressionAttributeNames" = some names ∧
    ∀ name, Wire.member? names name = rendering.names[name]?.map .string
  values : ∃ values, Wire.member? body "ExpressionAttributeValues" = some values ∧
    ∀ name, (Wire.member? values name).map Wire.value? = rendering.values[name]?.map some

theorem carriedIn_query (request : Request) (counting : Bool) {rendering : Rendering}
    (rendered : rendering = .ofConditions request.condition request.filter) :
    rendering.CarriedIn (Call.query request counting).request := by
  have members : ["TableName", "IndexName", "KeyConditionExpression", "FilterExpression",
      "ExpressionAttributeNames", "ExpressionAttributeValues", "Limit", "ExclusiveStartKey",
      "ScanIndexForward", "Select"].Nodup := by decide
  subst rendered
  rw [Call.request, Call.queryBody]
  constructor
  case key => exact Wire.member?_body members (.tail _ (.tail _ (.head _)))
  case filter =>
    rw [ofConditions, apply_ite (Option.map Value.string)]
    exact Wire.member?_body members (.tail _ (.tail _ (.tail _ (.head _))))
  case names =>
    refine ⟨_, Wire.member?_body members (.tail _ (.tail _ (.tail _ (.tail _ (.head _))))), ?_⟩
    exact Wire.member?_map _ Value.string
  case values =>
    refine ⟨_, Wire.member?_body members
      (.tail _ (.tail _ (.tail _ (.tail _ (.tail _ (.head _)))))), ?_⟩
    exact Wire.member?_ofItem _

theorem read_ofConditions {α : Type} {read : String → List α} {shown : Marked → List α}
    (rendered : ∀ marked, Marked.Fresh marked → read marked.render.text = shown marked)
    (nothing : shown [] = []) (append : ∀ marked others, shown (marked ++ others) =
      shown marked ++ shown others) (condition : KeyCondition) (filter : Filter) :
    read (ofConditions condition filter).key ++ (ofConditions condition filter).filter.elim [] read =
      shown (condition.marked ++ filter.marked) := by
  have key : read condition.expression.text = shown condition.marked := by
    rw [condition.expression_eq_render]
    exact rendered _ condition.fresh_marked
  have rest : (ofConditions condition filter).filter.elim [] read = shown filter.marked := by
    cases filter with
    | nil => exact nothing.symm
    | cons clause filter =>
      change read (Filter.expression (clause :: filter)).text = _
      rw [Filter.expression_eq_render]
      exact rendered _ (Filter.fresh_marked _)
  rw [rest, append, ← key]
  rfl

theorem namesIn_ofConditions (condition : KeyCondition) (filter : Filter) :
    (ofConditions condition filter).namesIn =
      (Marked.names (condition.marked ++ filter.marked)).map Prod.fst :=
  read_ofConditions (fun _ => Marked.namesIn_render) rfl (fun _ _ => by
    rw [Marked.names_append, List.map_append]) condition filter

theorem valuesIn_ofConditions (condition : KeyCondition) (filter : Filter) :
    (ofConditions condition filter).valuesIn =
      (Marked.values (condition.marked ++ filter.marked)).map Prod.fst :=
  read_ofConditions (fun _ => Marked.valuesIn_render) rfl (fun _ _ => by
    rw [Marked.values_append, List.map_append]) condition filter

theorem names_ofConditions (condition : KeyCondition) (filter : Filter) {name attr : String} :
    (ofConditions condition filter).names[name]? = some attr ↔
      (name, attr) ∈ Marked.names (condition.marked ++ filter.marked) := by
  have distinct := (fresh_append condition filter).nodup_names
  rw [Marked.names_append] at distinct ⊢
  rw [ofConditions, condition.expression_eq_render, filter.expression_eq_render, Marked.render_eq,
    Marked.render_eq]
  exact getElem?_insertMany_toList distinct

theorem values_ofConditions (condition : KeyCondition) (filter : Filter) {name : String}
    {value : Value} : (ofConditions condition filter).values[name]? = some value ↔
      (name, value) ∈ Marked.values (condition.marked ++ filter.marked) := by
  have distinct := (fresh_append condition filter).nodup_values
  rw [Marked.values_append] at distinct ⊢
  rw [ofConditions, condition.expression_eq_render, filter.expression_eq_render, Marked.render_eq,
    Marked.render_eq]
  exact getElem?_insertMany_toList distinct

theorem meaning?_ofConditions (condition : KeyCondition) (filter : Filter) {marked : Marked}
    (fresh : marked.Fresh) (some : marked ≠ []) (among : marked ⊆ condition.marked ++ filter.marked) :
    meaning? (ofConditions condition filter).names (ofConditions condition filter).values
      marked.render.text = .some (marked.map Prod.fst) := by
  refine Marked.meaning?_render fresh some ?_ ?_
  · intro entry member
    exact (names_ofConditions condition filter).mpr (List.map_subset _ among member)
  · intro entry member
    obtain ⟨held, inMarked, also⟩ := List.mem_flatMap.mp member
    exact (values_ofConditions condition filter).mpr
      (List.mem_flatMap.mpr ⟨held, among inMarked, also⟩)

theorem meaning?_key (condition : KeyCondition) (filter : Filter) :
    meaning? (ofConditions condition filter).names (ofConditions condition filter).values
      (ofConditions condition filter).key = some (condition.marked.map Prod.fst) := by
  have text : (ofConditions condition filter).key = condition.marked.render.text :=
    congrArg Expression.text condition.expression_eq_render
  rw [text]
  exact meaning?_ofConditions condition filter condition.fresh_marked (List.cons_ne_nil _ _)
    (List.subset_append_left ..)

theorem meaning?_filter (condition : KeyCondition) (filter : Filter) :
    (ofConditions condition filter).filter.elim (some [])
      (meaning? (ofConditions condition filter).names (ofConditions condition filter).values) =
        some filter := by
  cases filter with
  | nil => rfl
  | cons clause filter =>
    have marked : Filter.marked (clause :: filter) ≠ [] := List.cons_ne_nil _ _
    change meaning? _ _ (Filter.expression (clause :: filter)).text = _
    rw [Filter.expression_eq_render, meaning?_ofConditions condition (clause :: filter)
      (Filter.fresh_marked _) marked (List.subset_append_right ..), Filter.map_fst_marked]

theorem mem_iff_of_getElem? {α : Type} {map : Std.ExtTreeMap String α} {entries : List (String × α)}
    (held : ∀ name value, map[name]? = some value ↔ (name, value) ∈ entries) (name : String) :
    name ∈ map ↔ name ∈ entries.map Prod.fst := by
  rw [Std.ExtTreeMap.mem_iff_isSome_getElem?, Option.isSome_iff_exists]
  simp only [held, List.mem_map, Prod.exists, exists_and_right, exists_eq_right]

theorem tells_conditions (condition : KeyCondition) (filter : Filter) :
    (ofConditions condition filter).Tells condition filter where
  names_defined name := by
    rw [namesIn_ofConditions]
    exact mem_iff_of_getElem? (fun _ _ => names_ofConditions ..) name
  values_defined value := by
    rw [valuesIn_ofConditions]
    exact mem_iff_of_getElem? (fun _ _ => values_ofConditions ..) value
  names_apart := by
    rw [namesIn_ofConditions]
    exact (fresh_append condition filter).nodup_names
  values_apart := by
    rw [valuesIn_ofConditions]
    exact (fresh_append condition filter).nodup_values
  key := by rw [meaning?_key, Option.bind_some, condition.parts?_marked]
  filter := meaning?_filter condition filter
  isTrueOf_iff item partition key inPartition sorted := by
    rw [← condition.meets_marked_iff inPartition sorted, IsTrueOf, meaning?_key]
    simp only [Option.some.injEq, exists_eq_left']

end Rendering

/--
The texts of a query tell its conditions: with every placeholder replaced by what it stands for, they
are the conditions themselves, and what they say of strings is what the conditions ask of keys. Every
placeholder of a text is defined, every definition is used, and no two clauses share one. The body
carries the texts with what each placeholder stands for, and the texts show nothing of a condition but
its operators.
-/
theorem query_tells_conditions (request : Request) (counting : Bool) :
    ∃ rendering : Rendering, rendering.Tells request.condition request.filter ∧
      rendering.CarriedIn (Call.query request counting).request ∧
      (∀ other : Request, other.condition.operators = request.condition.operators →
        Wire.member? (Call.query other counting).request "KeyConditionExpression" =
          some (.string rendering.key)) ∧
      ∀ other : Request, other.filter.operators = request.filter.operators →
        Wire.member? (Call.query other counting).request "FilterExpression" =
          rendering.filter.map .string := by
  refine ⟨_, Rendering.tells_conditions request.condition request.filter,
    Rendering.carriedIn_query request counting rfl, fun other same => ?_, fun other same => ?_⟩
  · rw [(Rendering.carriedIn_query other counting rfl).key]
    exact congrArg (fun text => some (Value.string text)) (KeyCondition.text_congr same)
  · have empty : other.filter.isEmpty = request.filter.isEmpty := by
      simpa [Filter.operators] using congrArg List.isEmpty same
    rw [(Rendering.carriedIn_query other counting rfl).filter, Rendering.ofConditions,
      Rendering.ofConditions, empty, Filter.text_congr same]

def openNotes : Request where
  table := "t"
  slot := none
  condition := ⟨partitionAttr, "org#acme", sortAttr, some (.compares .beginsWith "Note#")⟩
  filter := [⟨"open", .compare .eq (.bool true)⟩]
  limit := none
  startKey := none
  forward := true

theorem open_notes_told :
    (∃ rendering : Rendering, rendering.Tells openNotes.condition openNotes.filter ∧
      rendering.CarriedIn (Call.query openNotes false).request) ∧
    (Call.query openNotes false).request = .object [
      ("ExpressionAttributeNames", .object [
        ("#f0", .string "open"), ("#pk", .string "partitionKey"), ("#sk", .string "sortKey")]),
      ("ExpressionAttributeValues", .object [
        (":f0", .object [("BOOL", .bool true)]), (":pk", .object [("S", .string "org#acme")]),
        (":sk", .object [("S", .string "Note#")])]),
      ("FilterExpression", .string "#f0 = :f0"),
      ("KeyConditionExpression", .string "#pk = :pk AND begins_with(#sk, :sk)"),
      ("ScanIndexForward", .bool true), ("TableName", .string "t")] := by
  obtain ⟨rendering, tells, carried, -, -⟩ := query_tells_conditions openNotes false
  exact ⟨⟨rendering, tells, carried⟩, rfl⟩

end SharedTable.Remote
