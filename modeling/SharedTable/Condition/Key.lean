import SharedTable.Condition.Sort

set_option autoImplicit false

namespace SharedTable

structure KeyCondition where
  partitionAttr : String
  partitionKey : String
  sortAttr : String
  sort : Option SortCondition
  deriving DecidableEq, Repr

namespace KeyCondition

def ofSlot (slot : Option IndexSlot) (partitionKey : String) (sort : Option SortCondition) :
    KeyCondition where
  partitionAttr := (slot.map IndexSlot.partitionAttr).getD SharedTable.partitionAttr
  partitionKey := partitionKey
  sortAttr := (slot.map IndexSlot.sortAttr).getD SharedTable.sortAttr
  sort := sort

def compile (schema : Schema) (index : Option Index) (partition : Fields) (filter : SortFilter) :
    Except FilterFault KeyCondition := do
  let key := (index.map Index.key).getD schema.key
  let sort ← filter.compile schema.typeName key.sort
  return ofSlot (index.map Index.slot) (key.partitionKey schema.typeName partition) sort

def holds (condition : KeyCondition) (item : Fields) : Bool :=
  match item.text? condition.partitionAttr, item.text? condition.sortAttr with
  | some partition, some sort =>
    partition == condition.partitionKey &&
      match condition.sort with
      | some wanted => wanted.holds sort
      | none => true
  | _, _ => false

end KeyCondition

def RangeOperator.shown (operator : RangeOperator) (attr bound : String) : String :=
  match operator with
  | .beginsWith => "begins_with(" ++ attr ++ ", " ++ bound ++ ")"
  | .gte => attr ++ " >= " ++ bound
  | .lte => attr ++ " <= " ++ bound
  | .gt => attr ++ " > " ++ bound
  | .lt => attr ++ " < " ++ bound

def SortCondition.shown (condition : SortCondition) (attr : String) : String :=
  match condition with
  | .equals key => attr ++ " = " ++ Text.quoted key
  | .compares operator bound => operator.shown attr (Text.quoted bound)
  | .between low high => attr ++ " BETWEEN " ++ Text.quoted low ++ " AND " ++ Text.quoted high

def KeyCondition.shown (condition : KeyCondition) : String :=
  condition.partitionAttr ++ " = " ++ Text.quoted condition.partitionKey ++
    match condition.sort with
    | some sort => " AND " ++ sort.shown condition.sortAttr
    | none => ""

end SharedTable
