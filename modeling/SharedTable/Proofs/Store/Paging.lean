import SharedTable.Proofs.Except
import SharedTable.Proofs.Store.Keyed
import SharedTable.Proofs.Store.Order

/-!
One page of a query. The key that a page ends with names the position of the last item looked at,
whatever the table holds by the time it is used, and what lies behind that position is what the page
left out.
-/

set_option autoImplicit false

namespace SharedTable

theorem PrimaryKey.ofItem?_eq_some_iff {item : Item} {key : PrimaryKey} :
    PrimaryKey.ofItem? item = some key ↔
      item.text? partitionAttr = some key.partition ∧ item.text? sortAttr = some key.sort := by
  unfold PrimaryKey.ofItem?
  cases key
  cases item.text? partitionAttr <;> cases item.text? sortAttr <;> simp

theorem getElem?_insertMany_texts (item : Item) (attrs : List String) (key : LastKey) (name : String) :
    (key.insertMany (attrs.filterMap fun attr => (item.text? attr).map fun text => (attr, text)))[name]? =
      if name ∈ attrs then (item.text? name).or key[name]? else key[name]? := by
  induction attrs generalizing key with
  | nil => simp
  | cons attr rest ih =>
    rw [List.filterMap_cons]
    cases read : item.text? attr with
    | none =>
      simp only [Option.map_none, ih]
      by_cases same : name = attr
      · subst same
        simp [read]
      · simp [same]
    | some text =>
      simp only [Option.map_some, Std.ExtTreeMap.insertMany_cons, ih, Std.ExtTreeMap.getElem?_insert]
      by_cases same : name = attr
      · subst same
        simp [read]
      · simp [same, Ne.symm same]

namespace Contents

theorem getElem?_lastKey {condition : KeyCondition} {placed : Position × Item} {name text : String}
    (base : placed.1.key.toLastKey[name]? = some text) (own : placed.2.text? name = some text) :
    (lastKey condition placed)[name]? = some text := by
  simp only [lastKey, getElem?_insertMany_texts, base, own]
  split <;> rfl

theorem ofStartKey_lastKey {condition : KeyCondition} {placed : Position × Item}
    (own : PrimaryKey.ofItem? placed.2 = some placed.1.key)
    (read : placed.2.text? condition.sortAttr = some placed.1.sort) :
    Position.ofStartKey (lastKey condition placed) condition.sortAttr = .ok placed.1 := by
  have texts := PrimaryKey.ofItem?_eq_some_iff.mp own
  have queried : (lastKey condition placed)[condition.sortAttr]? = some placed.1.sort := by
    rw [lastKey, getElem?_insertMany_texts, if_pos (by simp), read]
    rfl
  have partition : (lastKey condition placed)[partitionAttr]? = some placed.1.key.partition := by
    refine getElem?_lastKey ?_ texts.1
    simp only [PrimaryKey.toLastKey, Std.ExtTreeMap.ofList_cons, Std.ExtTreeMap.insertMany_cons,
      Std.ExtTreeMap.insertMany_nil, Std.ExtTreeMap.getElem?_insert]
    simp [partitionAttr, sortAttr]
  have sort : (lastKey condition placed)[sortAttr]? = some placed.1.key.sort := by
    refine getElem?_lastKey ?_ texts.2
    simp only [PrimaryKey.toLastKey, Std.ExtTreeMap.ofList_cons, Std.ExtTreeMap.insertMany_cons,
      Std.ExtTreeMap.insertMany_nil, Std.ExtTreeMap.getElem?_insert]
    simp
  simp [Position.ofStartKey, Position.attr, queried, partition, sort, pure, Except.pure, bind,
    Except.bind]

def behind (contents : Contents) (condition : KeyCondition) (forward : Bool)
    (start : Option Position) : List (Position × Item) :=
  (contents.inOrder condition forward).filter fun placed =>
    start.all fun start => placed.1.isBeyond forward start

theorem behind_none (contents : Contents) (condition : KeyCondition) (forward : Bool) :
    contents.behind condition forward none = contents.inOrder condition forward := by
  simp [behind]

theorem behind_ascending (contents : Contents) (condition : KeyCondition) (forward : Bool)
    (start : Option Position) : Ascending forward (contents.behind condition forward start) :=
  (contents.inOrder_ascending condition forward).filter _

theorem mem_behind {contents : Contents} {condition : KeyCondition} {forward : Bool}
    {start : Option Position} {placed : Position × Item} :
    placed ∈ contents.behind condition forward start ↔
      placed ∈ contents.selected condition ∧
        ∀ position, start = some position → placed.1.isBeyond forward position = true := by
  cases start <;> simp [behind, mem_inOrder]

end Contents

def lookedAt (limit : Option Nat) (remaining : List (Position × Item)) : List (Position × Item) :=
  remaining.take (limit.getD remaining.length)

def leftOut (limit : Option Nat) (remaining : List (Position × Item)) : List (Position × Item) :=
  remaining.drop (limit.getD remaining.length)

theorem lookedAt_append_leftOut (limit : Option Nat) (remaining : List (Position × Item)) :
    lookedAt limit remaining ++ leftOut limit remaining = remaining := List.take_append_drop _ _

def pageKey (condition : KeyCondition) (limit : Option Nat) (remaining : List (Position × Item)) :
    Option LastKey :=
  if leftOut limit remaining = [] then none
  else (lookedAt limit remaining).getLast?.map (Contents.lastKey condition)

def Request.pageOf (request : Request) (remaining : List (Position × Item)) : QueryPage where
  items := ((lookedAt request.limit remaining).map Prod.snd).filter request.filter.holds
  lastKey := pageKey request.condition request.limit remaining

def StartsAt (sortAttr : String) : Option LastKey → Option Position → Prop
  | none, none => True
  | some key, some position => Position.ofStartKey key sortAttr = .ok position
  | _, _ => False

theorem filter_beyond_last {forward : Bool} {earlier rest : List (Position × Item)}
    {last : Position × Item} (ascending : Ascending forward (earlier ++ [last] ++ rest)) :
    (earlier ++ [last] ++ rest).filter (fun placed => placed.1.isBeyond forward last.1) = rest := by
  have split := List.pairwise_append.mp ascending
  have before := (List.pairwise_append.mp split.1).2.2
  have none : (earlier ++ [last]).filter (fun placed => placed.1.isBeyond forward last.1) = [] := by
    rw [List.filter_eq_nil_iff]
    intro placed member
    rcases List.mem_append.mp member with member | member
    · simp [Position.isBeyond_asymm (before placed member last (by simp))]
    · simp [List.mem_singleton.mp member, Position.isBeyond_irrefl]
  have all : rest.filter (fun placed => placed.1.isBeyond forward last.1) = rest := by
    rw [List.filter_eq_self]
    intro placed member
    exact split.2.2 last (by simp) placed member
  rw [List.filter_append, none, all, List.nil_append]

namespace Contents

theorem remaining_eq {contents : Contents} {request : Request} {start : Option Position}
    (starts : StartsAt request.condition.sortAttr request.startKey start) :
    contents.remaining request = .ok (contents.behind request.condition request.forward start) := by
  unfold Contents.remaining
  cases given : request.startKey with
  | none =>
    cases start with
    | none => rw [behind_none]; rfl
    | some position => simp [StartsAt, given] at starts
  | some key =>
    cases start with
    | none => simp [StartsAt, given] at starts
    | some position =>
      simp only [StartsAt, given] at starts
      simp [starts, behind, pure, Except.pure, bind, Except.bind]

theorem page_eq {contents : Contents} {request : Request} {start : Option Position}
    (starts : StartsAt request.condition.sortAttr request.startKey start) :
    contents.page request =
      .ok (request.pageOf (contents.behind request.condition request.forward start)) := by
  let remaining := contents.behind request.condition request.forward start
  -- The limit cuts something off exactly when it leaves something out.
  have limited : (lookedAt request.limit remaining).length < remaining.length ↔
      leftOut request.limit remaining ≠ [] := by
    simp only [lookedAt, leftOut, List.length_take, ne_eq, List.drop_eq_nil_iff]
    omega
  unfold Contents.page
  rw [remaining_eq starts]
  change Except.ok (QueryPage.mk _ (if (lookedAt request.limit remaining).length < remaining.length
    then _ else _)) = _
  by_cases cut : leftOut request.limit remaining = []
  · rw [if_neg (by simp [limited, cut]), Request.pageOf, pageKey, if_pos cut]
    rfl
  · rw [if_pos (limited.mpr cut), Request.pageOf, pageKey, if_neg cut]
    rfl

theorem behind_last {contents : Contents} {condition : KeyCondition} {forward : Bool}
    {start : Option Position} {limit : Option Nat} {last : Position × Item}
    (ended : (lookedAt limit (contents.behind condition forward start)).getLast? = some last) :
    contents.behind condition forward (some last.1) =
      leftOut limit (contents.behind condition forward start) := by
  obtain ⟨earlier, cut⟩ := List.getLast?_eq_some_iff.mp ended
  have whole := lookedAt_append_leftOut limit (contents.behind condition forward start)
  rw [cut] at whole
  have member : last ∈ contents.behind condition forward start := by
    rw [← whole]
    simp
  -- What lies behind the last item also lies behind the start, so the start can be forgotten.
  have narrowed : contents.behind condition forward (some last.1) =
      (contents.behind condition forward start).filter
        fun placed => placed.1.isBeyond forward last.1 := by
    simp only [behind, List.filter_filter, Option.all_some]
    apply List.filter_congr
    intro placed _
    cases start with
    | none => simp
    | some position =>
      have beyond := (mem_behind.mp member).2 position rfl
      cases further : placed.1.isBeyond forward last.1 with
      | false => simp
      | true => simp [Position.isBeyond_trans beyond further]
  have ascending := contents.behind_ascending condition forward start
  rw [← whole] at ascending
  calc contents.behind condition forward (some last.1)
      = (earlier ++ [last] ++ leftOut limit (contents.behind condition forward start)).filter
          (fun placed => placed.1.isBeyond forward last.1) := by rw [whole, narrowed]
    _ = leftOut limit (contents.behind condition forward start) := filter_beyond_last ascending

end Contents

theorem Store.page_eq {store : Store} {request : Request} {start : Option Position}
    (starts : StartsAt request.condition.sortAttr request.startKey start) :
    store.page request =
      .ok (request.pageOf
        ((store.contents request.table).behind request.condition request.forward start)) := by
  unfold Store.page Store.contents
  rw [Std.ExtTreeMap.getD_eq_getD_getElem?]
  cases store[request.table]? with
  | some contents => exact Contents.page_eq starts
  | none =>
    have empty : Contents.behind ∅ request.condition request.forward start = [] := by
      rw [List.eq_nil_iff_forall_not_mem]
      intro placed member
      simpa using (Contents.mem_selected.mp (Contents.mem_behind.mp member).1).1
    rw [Option.getD_none, empty]
    simp [Request.pageOf, pageKey, lookedAt, leftOut, pure, Except.pure]

theorem pageKey_of_leftOut (condition : KeyCondition) {limit : Option Nat}
    {remaining : List (Position × Item)} (positive : limit ≠ some 0)
    (more : leftOut limit remaining ≠ []) :
    ∃ last, (lookedAt limit remaining).getLast? = some last ∧
      pageKey condition limit remaining = some (Contents.lastKey condition last) := by
  -- A page with a positive limit looks at something before it leaves anything out.
  have some : lookedAt limit remaining ≠ [] := by
    intro none
    simp only [lookedAt, List.take_eq_nil_iff] at none
    rcases none with zero | empty
    · cases limit with
      | none => simp [leftOut] at more
      | some limit => exact positive (congrArg _ zero)
    · simp [leftOut, empty] at more
  refine ⟨_, List.getLast?_eq_some_getLast some, ?_⟩
  simp [pageKey, more, List.getLast?_eq_some_getLast some]

theorem Store.page_resumeFrom (store : Store) (request : Request) {startKey : Option LastKey}
    {start : Option Position} (starts : StartsAt request.condition.sortAttr startKey start) :
    store.page (request.resumeFrom startKey) =
      .ok (request.pageOf
        ((store.contents request.table).behind request.condition request.forward start)) :=
  Store.page_eq starts

/--
A page is the last one, or it ends with a key that names the position of the last item looked at, and
behind that position lies what the page left out.
-/
theorem page_step {store : Store} {request : Request}
    (keyed : (store.contents request.table).Keyed) (positive : request.limit ≠ some 0)
    {start : Option Position} {remaining : List (Position × Item)}
    (left : (store.contents request.table).behind request.condition request.forward start =
      remaining) :
    ((request.pageOf remaining).lastKey = none ∧ leftOut request.limit remaining = []) ∨
      ∃ key last, (request.pageOf remaining).lastKey = some key ∧
        leftOut request.limit remaining ≠ [] ∧
        (lookedAt request.limit remaining).getLast? = some last ∧
        StartsAt request.condition.sortAttr (some key) (some last.1) ∧
        (store.contents request.table).behind request.condition request.forward (some last.1) =
          leftOut request.limit remaining := by
  by_cases final : leftOut request.limit remaining = []
  · exact .inl ⟨by simp [Request.pageOf, pageKey, final], final⟩
  · obtain ⟨last, ended, key⟩ := pageKey_of_leftOut request.condition positive final
    have member : last ∈ remaining := List.mem_of_mem_take (List.mem_of_getLast? ended)
    rw [← left] at member
    have selected := Contents.mem_selected.mp (Contents.mem_behind.mp member).1
    have resumes := Contents.ofStartKey_lastKey (keyed _ _ selected.1) selected.2.2
    refine .inr ⟨_, last, key, final, ended, resumes, ?_⟩
    rw [← left] at ended ⊢
    exact Contents.behind_last ended

theorem filter_split (limit : Option Nat) (remaining : List (Position × Item)) (filter : Filter) :
    (remaining.map Prod.snd).filter filter.holds =
      ((lookedAt limit remaining).map Prod.snd).filter filter.holds ++
        ((leftOut limit remaining).map Prod.snd).filter filter.holds := by
  rw [← List.filter_append, ← List.map_append, lookedAt_append_leftOut]

end SharedTable
