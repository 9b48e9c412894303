import SharedTable.Proofs.Cursor
import SharedTable.Proofs.Memory.Reached
import SharedTable.Proofs.Query.Compile
import SharedTable.Proofs.Query.Run
import SharedTable.Proofs.Store.Paging

/-!
Paging through a query while the tables change. A page is asked for behind a position, not behind an
item, so writes between the pages neither repeat an item nor hide one that they leave alone.
-/

set_option autoImplicit false

namespace SharedTable

structure Pager (κ β : Type) where
  ask : Option κ → Action Memory β
  next : β → Option κ
  reads : κ → LastKey → Prop

structure Visit (β : Type) where
  before : World Memory
  answer : Except Fault β

def Request.Matches (request : Request) (store : Store) (position : Position) (item : Item) : Prop :=
  store.PlacedAt request.table request.condition position item ∧ request.filter.holds item = true

namespace Pager

variable {κ β α : Type}

/-- Page calls, each for the page behind the one before, and with writes ahead of each of them. -/
def visits (limits : BatchLimits) (pager : Pager κ β) :
    World Memory → Option κ → List (List Write) → List (Visit β)
  | _, _, [] => []
  | world, key, writes :: later =>
    let before := Write.after (Memory.engine limits) world writes
    let outcome := (pager.ask key).run before
    ⟨before, outcome.1⟩ ::
      match outcome.1 with
      | .error _ => []
      | .ok page =>
        match pager.next page with
        | none => []
        | some key => pager.visits limits outcome.2 (some key) later

def Ended (pager : Pager κ β) (visits : List (Visit β)) : Prop :=
  ∃ visit page, visits.getLast? = some visit ∧ visit.answer = .ok page ∧ pager.next page = none

def ofRequest (limits : BatchLimits) (request : Request) : Pager LastKey QueryPage where
  ask startKey := (Memory.engine limits).query (request.resumeFrom startKey)
  next page := page.lastKey
  reads := Eq

def ofQuery (query : Query Memory α) : Pager Cursor (RecordPage α) where
  ask cursor := { query with cursor }.execute
  next page := page.cursor
  reads cursor key := cursor.decode = .ok key

def keys (pager : Pager κ β) (visits : List (Visit β)) : List κ :=
  visits.filterMap fun visit => visit.answer.toOption.bind pager.next

def Names (pager : Pager κ β) (request : Request) (key : κ) (position : Position) : Prop :=
  ∃ lastKey, pager.reads key lastKey ∧
    Position.ofStartKey lastKey request.condition.sortAttr = .ok position

/--
What page calls return, page by page, as items with their positions: no call fails over its cursor,
no position comes again, every next key moves on, and no item is missed that a query would have returned
all the time.
-/
structure Returns (pager : Pager κ β) (request : Request) (shows : List Item → Except Fault β → Prop)
    (visits : List (Visit β)) (pages : List (List (Position × Item))) : Prop where
  answered : List.Forall₂ (fun visit page =>
    shows (page.map Prod.snd) visit.answer ∧ ∀ placed ∈ page,
      request.Matches visit.before.state.store placed.1 placed.2) visits pages
  resumed : ∀ visit ∈ visits, ∀ fault, visit.answer ≠ .error (.cursor fault)
  ordered : pages.flatten.Pairwise fun a b =>
    compare a.1 b.1 = if request.forward then .lt else .gt
  advancing : ∃ positions, List.Forall₂ (pager.Names request) (pager.keys visits) positions ∧
    positions.Pairwise fun a b => compare a b = if request.forward then .lt else .gt
  complete : pager.Ended visits → ∀ position item,
    (∀ visit ∈ visits, request.Matches visit.before.state.store position item) →
      (position, item) ∈ pages.flatten ∧ (pages.flatten.map Prod.fst).count position = 1

structure Serves (pager : Pager κ β) (request : Request)
    (shows : List Item → Except Fault β → Prop) : Prop where
  answers : ∀ key startKey world page, Option.Rel pager.reads key startKey →
    world.state.store.page (request.resumeFrom startKey) = .ok page →
      ((pager.ask key).run world).2.state.store = world.state.store ∧
        shows page.items ((pager.ask key).run world).1 ∧
        (∀ fault, ((pager.ask key).run world).1 ≠ .error (.cursor fault)) ∧
        ∀ shown, ((pager.ask key).run world).1 = .ok shown →
          Option.Rel pager.reads (pager.next shown) page.lastKey

theorem serves_ofRequest (limits : BatchLimits) (request : Request) :
    (ofRequest limits request).Serves request fun items answer =>
      answer.map QueryPage.items = .ok items where
  answers key startKey world page same found := by
    have named : key = startKey := by
      cases same with
      | none => rfl
      | some same => rw [same]
    subst named
    have answer : (((ofRequest limits request).ask key).run world).1 = .ok page := by
      change (((Memory.engine limits).query (request.resumeFrom key)).run world).1 = _
      rw [Memory.run_query, found]
      rfl
    rw [answer]
    refine ⟨rfl, rfl, ?_, ?_⟩
    · rintro fault ⟨⟩
    · rintro shown ⟨⟩
      change Option.Rel Eq page.lastKey page.lastKey
      cases page.lastKey with
      | none => exact .none
      | some key => exact .some rfl

theorem execute_run {limits : BatchLimits} (query : Query Memory α) {request : Request}
    (served : query.table.engine = Memory.engine limits) (compiled : query.compile = .ok request)
    {world : World Memory} {page : QueryPage} (found : world.state.store.page request = .ok page) :
    query.execute.run world =
      ((query.decodeAll page.items).map fun records => ⟨records, page.lastKey.map Cursor.encode⟩,
        (world.asked .query 1).reported
          (.queryPage request.table request.condition page.items.length page.lastKey.isSome)) := by
  have asked : (query.table.engine.query request).run world =
      (.ok page, world.asked .query 1) := by
    rw [served, Memory.run_query, found]
    rfl
  exact Query.execute_run_page compiled asked

theorem decodeAll_ne_cursor (query : Query Memory α) (items : List Item) (fault : CursorFault) :
    query.decodeAll items ≠ .error (.cursor fault) := by
  intro failed
  obtain ⟨item, _, failed⟩ := mapM_eq_error failed
  change Item.decode query.table.type query.table.schema item = _ at failed
  unfold Item.decode at failed
  split at failed <;> cases failed

theorem serves_ofQuery {limits : BatchLimits} {query : Query Memory α} {request : Request}
    (served : query.table.engine = Memory.engine limits) (compiled : query.compile = .ok request) :
    (ofQuery query).Serves request fun items answer =>
      answer.map RecordPage.records = query.decodeAll items where
  answers key startKey world page read found := by
    have ran := execute_run { query with cursor := key } served
      (Query.compile_resumed compiled read) found
    change _ = ((query.decodeAll page.items).map _, _) at ran
    rw [ofQuery, ran]
    refine ⟨rfl, ?_, ?_, ?_⟩
    · cases query.decodeAll page.items <;> rfl
    · intro fault failed
      cases decoded : query.decodeAll page.items with
      | ok records =>
        rw [decoded] at failed
        cases failed
      | error other =>
        rw [decoded] at failed
        cases failed
        exact decodeAll_ne_cursor query page.items fault decoded
    · intro shown answered
      cases decoded : query.decodeAll page.items with
      | error other =>
        rw [decoded] at answered
        cases answered
      | ok records =>
        rw [decoded] at answered
        cases answered
        change Option.Rel _ (page.lastKey.map Cursor.encode) page.lastKey
        cases page.lastKey with
        | none => exact .none
        | some key => exact .some (Cursor.decode_encode key)

def returned (request : Request) (remaining : List (Position × Item)) : List (Position × Item) :=
  (lookedAt request.limit remaining).filter fun placed => request.filter.holds placed.2

theorem items_pageOf (request : Request) (remaining : List (Position × Item)) :
    (request.pageOf remaining).items = (returned request remaining).map Prod.snd := by
  rw [Request.pageOf, returned, List.filter_map]
  rfl

structure Covers (pager : Pager κ β) (request : Request) (shows : List Item → Except Fault β → Prop)
    (start : Option Position) (visits : List (Visit β)) (pages : List (List (Position × Item))) :
    Prop where
  answered : List.Forall₂ (fun visit page =>
    shows (page.map Prod.snd) visit.answer ∧ ∀ placed ∈ page,
      request.Matches visit.before.state.store placed.1 placed.2) visits pages
  resumed : ∀ visit ∈ visits, ∀ fault, visit.answer ≠ .error (.cursor fault)
  ascending : Ascending request.forward pages.flatten
  beyond : ∀ placed ∈ pages.flatten, ∀ position, start = some position →
    placed.1.isBeyond request.forward position = true
  advancing : ∃ positions, List.Forall₂ (pager.Names request) (pager.keys visits) positions ∧
    (start.toList ++ positions).Pairwise fun a b => b.isBeyond request.forward a = true
  complete : pager.Ended visits → ∀ position item,
    (∀ visit ∈ visits, request.Matches visit.before.state.store position item) →
      (∀ last, start = some last → position.isBeyond request.forward last = true) →
        (position, item) ∈ pages.flatten

variable {limits : BatchLimits} {pager : Pager κ β} {request : Request}
  {shows : List Item → Except Fault β → Prop} {start : Option Position}

theorem not_ended_nil : ¬ pager.Ended [] := by
  rintro ⟨visit, page, last, _⟩
  cases last

theorem ended_of_cons {visit : Visit β} {later : List (Visit β)} (unfinished : ¬ pager.Ended [visit])
    (ended : pager.Ended (visit :: later)) : pager.Ended later := by
  obtain ⟨final, page, last, answered⟩ := ended
  cases later with
  | nil => exact absurd ⟨final, page, last, answered⟩ unfinished
  | cons next rest => exact ⟨final, page, by simpa using last, answered⟩

theorem covers_nil : pager.Covers request shows start [] [] where
  answered := .nil
  resumed := by simp
  ascending := .nil
  beyond := by simp
  advancing := ⟨[], .nil, by cases start <;> simp⟩
  complete ended := absurd ended not_ended_nil

theorem mem_behind_iff_matches {store : Store} {position : Position} {item : Item} :
    (position, item) ∈ (store.contents request.table).behind request.condition request.forward start ∧
        request.filter.holds item = true ↔
      request.Matches store position item ∧
        ∀ last, start = some last → position.isBeyond request.forward last = true := by
  rw [Contents.mem_behind, Store.mem_selected_iff, Request.Matches]
  constructor
  · rintro ⟨⟨placed, beyond⟩, passes⟩
    exact ⟨⟨placed, passes⟩, beyond⟩
  · rintro ⟨⟨placed, passes⟩, beyond⟩
    exact ⟨⟨placed, beyond⟩, passes⟩

theorem isBeyond_of_mem_lookedAt {contents : Contents} {remaining : List (Position × Item)}
    (left : contents.behind request.condition request.forward start = remaining)
    {placed : Position × Item} (looked : placed ∈ lookedAt request.limit remaining)
    {position : Position} (starts : start = some position) :
    placed.1.isBeyond request.forward position = true := by
  have kept := List.mem_of_mem_take looked
  rw [← left] at kept
  exact (Contents.mem_behind.mp kept).2 position starts

theorem keys_cons (visit : Visit β) (later : List (Visit β)) :
    pager.keys (visit :: later) = (visit.answer.toOption.bind pager.next).toList ++ pager.keys later := by
  unfold keys
  rw [List.filterMap_cons]
  cases visit.answer.toOption.bind pager.next <;> rfl

-- One more call in front of others. What it leaves out lies behind the last item that it looked at,
-- and that is where the others start.
theorem covers_cons {visit : Visit β} {later : List (Visit β)} {pages : List (List (Position × Item))}
    {remaining : List (Position × Item)}
    (left : (visit.before.state.store.contents request.table).behind request.condition
      request.forward start = remaining)
    (shown : shows ((returned request remaining).map Prod.snd) visit.answer)
    (valid : ∀ fault, visit.answer ≠ .error (.cursor fault))
    (unfinished : leftOut request.limit remaining ≠ [] → ¬ pager.Ended [visit])
    {last : Option Position} (covers : pager.Covers request shows last later pages)
    (further : ∀ position, last = some position →
      (∃ item, (lookedAt request.limit remaining).getLast? = some (position, item)) ∧
      ∀ placed ∈ leftOut request.limit remaining,
        placed.1.isBeyond request.forward position = true)
    (stops : last = none → later = [])
    (marked : Option.Rel (pager.Names request) (visit.answer.toOption.bind pager.next) last) :
    pager.Covers request shows start (visit :: later) (returned request remaining :: pages) where
  answered := by
    refine .cons ⟨shown, fun placed member => ?_⟩ covers.answered
    obtain ⟨looked, passes⟩ := List.mem_filter.mp member
    have behind := List.mem_of_mem_take looked
    rw [← left] at behind
    exact (mem_behind_iff_matches.mp ⟨behind, passes⟩).1
  resumed := by
    rintro other member
    rcases List.mem_cons.mp member with rfl | member
    · exact valid
    · exact covers.resumed other member
  ascending := by
    have ordered : Ascending request.forward remaining :=
      left ▸ Contents.behind_ascending _ request.condition request.forward start
    rw [List.flatten_cons]
    refine List.pairwise_append.mpr
      ⟨(ordered.sublist (List.take_sublist _ _)).filter _, covers.ascending, ?_⟩
    intro early before late after
    have looked := (List.mem_filter.mp before).1
    -- Later pages start behind the last item looked at, and so behind all before it.
    cases last with
    | none =>
      have none := stops rfl
      subst none
      cases covers.answered
      cases after
    | some position =>
      obtain ⟨⟨item, final⟩, _⟩ := further position rfl
      have beyond := covers.beyond late after position rfl
      obtain ⟨earlier, cut⟩ := List.getLast?_eq_some_iff.mp final
      have sorted : Ascending request.forward (lookedAt request.limit remaining) :=
        ordered.sublist (List.take_sublist _ _)
      rw [cut] at sorted looked
      rcases List.mem_append.mp looked with member | member
      · exact Position.isBeyond_trans
          ((List.pairwise_append.mp sorted).2.2 early member (position, item) (by simp)) beyond
      · cases List.mem_singleton.mp member
        exact beyond
  beyond := by
    intro placed member position starts
    rw [List.flatten_cons] at member
    rcases List.mem_append.mp member with early | late
    · exact isBeyond_of_mem_lookedAt left (List.mem_filter.mp early).1 starts
    · cases last with
      | none =>
        have none := stops rfl
        subst none
        cases covers.answered
        cases late
      | some final =>
        obtain ⟨⟨item, final⟩, _⟩ := further _ rfl
        exact Position.isBeyond_trans
          (isBeyond_of_mem_lookedAt left (List.mem_of_getLast? final) starts)
          (covers.beyond placed late _ rfl)
  advancing := by
    obtain ⟨positions, named, ascends⟩ := covers.advancing
    rw [keys_cons]
    generalize visit.answer.toOption.bind pager.next = key at marked
    cases marked with
    | none =>
      obtain rfl := stops rfl
      exact ⟨[], .nil, by cases start <;> simp⟩
    | @some key position names =>
      refine ⟨position :: positions, .cons names named, ?_⟩
      obtain ⟨⟨item, final⟩, _⟩ := further position rfl
      cases start with
      | none => exact ascends
      | some first =>
        have moves : position.isBeyond request.forward first = true :=
          isBeyond_of_mem_lookedAt left (List.mem_of_getLast? final) rfl
        refine List.pairwise_cons.mpr ⟨fun other member => ?_, ascends⟩
        rcases List.mem_cons.mp member with rfl | after
        · exact moves
        · exact Position.isBeyond_trans moves (List.rel_of_pairwise_cons ascends after)
  complete := by
    intro ended position item always beyond
    obtain ⟨kept, passes⟩ := mem_behind_iff_matches.mpr ⟨always visit List.mem_cons_self, beyond⟩
    rw [left, ← lookedAt_append_leftOut request.limit remaining] at kept
    rw [List.flatten_cons]
    rcases List.mem_append.mp kept with looked | out
    · exact List.mem_append_left _ (List.mem_filter.mpr ⟨looked, passes⟩)
    · have goesOn := ended_of_cons (unfinished (List.ne_nil_of_mem out)) ended
      apply List.mem_append_right
      apply covers.complete goesOn position item
      · exact fun other member => always other (List.mem_cons_of_mem _ member)
      · exact fun final starts => (further final starts).2 (position, item) out

theorem visits_covers (serves : pager.Serves request shows)
    (positive : request.limit ≠ some 0) {world : World Memory} (keyed : world.state.store.Keyed)
    {key : Option κ} {startKey : Option LastKey} (read : Option.Rel pager.reads key startKey)
    (starts : StartsAt request.condition.sortAttr startKey start) (writes : List (List Write)) :
    ∃ pages, pager.Covers request shows start (pager.visits limits world key writes) pages := by
  -- What a call leaves out lies behind the position that its key names. The next call starts there,
  -- whatever is written in between, so the position is all that the induction has to carry.
  induction writes generalizing world key startKey start with
  | nil => exact ⟨[], covers_nil⟩
  | cons ahead later ih =>
    have keyedBefore := Write.after_keyed limits world ahead keyed
    simp only [visits]
    generalize Write.after (Memory.engine limits) world ahead = before at keyedBefore ⊢
    generalize left : (before.state.store.contents request.table).behind request.condition
      request.forward start = remaining
    have found := Store.page_resumeFrom before.state.store request starts
    rw [left] at found
    obtain ⟨kept, shown, valid, next⟩ := serves.answers key startKey before _ read found
    rw [items_pageOf] at shown
    generalize (pager.ask key).run before = outcome at kept shown valid next ⊢
    -- A call that no other follows leaves nothing out, unless the drain stops short.
    have single (unfinished : leftOut request.limit remaining ≠ [] →
        ¬ pager.Ended [⟨before, outcome.1⟩]) (last : outcome.1.toOption.bind pager.next = none) :
        pager.Covers request shows start [⟨before, outcome.1⟩] [returned request remaining] :=
      covers_cons left shown valid unfinished (covers_nil : pager.Covers request shows none [] []) nofun
        (fun _ => rfl) (last ▸ .none)
    cases answered : outcome.1 with
    | error fault =>
      rw [answered] at single
      refine ⟨_, single (fun _ ended => ?_) rfl⟩
      obtain ⟨visit, page, last, failed, _⟩ := ended
      cases last
      cases failed
    | ok page =>
      have named := next page answered
      rw [answered] at single shown valid
      rcases page_step (keyedBefore.contents _) positive left with
        ⟨final, whole⟩ | ⟨nextKey, last, final, _, looked, resumes, rest⟩
      · cases goesOn : pager.next page with
        | some other =>
          rw [final, goesOn] at named
          exact absurd named Option.not_rel_some_none
        | none =>
          simp only [goesOn]
          exact ⟨_, single (fun out => absurd whole out) goesOn⟩
      · cases goesOn : pager.next page with
        | none =>
          rw [final, goesOn] at named
          exact absurd named Option.not_rel_none_some
        | some other =>
          rw [final, goesOn] at named
          simp only [goesOn]
          obtain ⟨pages, covers⟩ := ih (kept.symm ▸ keyedBefore) named resumes
          have names : pager.Names request other last.1 := by
            cases named with
            | some read => exact ⟨nextKey, read, resumes⟩
          have marked : Option.Rel (pager.Names request)
              ((Except.ok page : Except Fault β).toOption.bind pager.next) (some last.1) := by
            rw [Except.toOption, Option.bind_some, goesOn]
            exact .some names
          refine ⟨_, covers_cons left shown valid ?_ covers ?_ nofun marked⟩
          · rintro _ ⟨visit, shown, final, same, stops⟩
            cases final
            cases same
            rw [goesOn] at stops
            cases stops
          · rintro position ⟨⟩
            refine ⟨⟨last.2, looked⟩, fun placed member => ?_⟩
            rw [← rest] at member
            exact (Contents.mem_behind.mp member).2 last.1 rfl

theorem Covers.returns {visits : List (Visit β)} {pages : List (List (Position × Item))}
    (covers : pager.Covers request shows none visits pages) :
    pager.Returns request shows visits pages where
  answered := covers.answered
  resumed := covers.resumed
  ordered := by
    exact covers.ascending.imp Position.isBeyond_iff.mp
  advancing := by
    obtain ⟨positions, named, ascends⟩ := covers.advancing
    exact ⟨positions, named, ascends.imp Position.isBeyond_iff.mp⟩
  complete := by
    intro ended position item always
    have member := covers.complete ended position item always nofun
    have distinct : (pages.flatten.map Prod.fst).Nodup := by
      apply List.pairwise_map.mpr
      apply covers.ascending.imp
      intro earlier later beyond same
      rw [same, Position.isBeyond_irrefl] at beyond
      cases beyond
    exact ⟨member, distinct.count.trans (if_pos (List.mem_map_of_mem member))⟩

/--
Pages survive writes, whether they are asked for by start keys or by cursors. The items of a page whose
records cannot be read count as returned; such a page ends its drain short.
-/
theorem pages_survive_writes {world : World Memory} (reached : world.state.store.Reached limits)
    (writes : List (List Write)) :
    (∀ request : Request, request.limit ≠ some 0 →
      ∃ pages, (ofRequest limits request).Returns request
        (fun items answer => answer.map QueryPage.items = .ok items)
        ((ofRequest limits request).visits limits world none writes) pages) ∧
      ∀ (α : Type) (query : Query Memory α) (request : Request),
        query.table.engine = Memory.engine limits → query.compile = .ok request →
          ∃ pages, (ofQuery query).Returns request
            (fun items answer => answer.map RecordPage.records = query.decodeAll items)
            ((ofQuery query).visits limits world none writes) pages := by
  constructor
  · intro request positive
    obtain ⟨pages, covers⟩ := visits_covers (serves_ofRequest limits request) positive reached.keyed
      .none (show StartsAt request.condition.sortAttr none none from trivial) writes
    exact ⟨pages, covers.returns⟩
  · intro α query request served compiled
    have positive : request.limit ≠ some 0 := by
      obtain ⟨positive, _, _, _, _, _, _, rfl⟩ := Query.compile_eq_ok_iff.mp compiled
      exact positive
    obtain ⟨pages, covers⟩ := visits_covers (serves_ofQuery served compiled) positive reached.keyed
      .none (show StartsAt request.condition.sortAttr none none from trivial) writes
    exact ⟨pages, covers.returns⟩

theorem visits_next {world before left : World Memory} {key : Option κ} {writes : List Write} {page : β}
    {next : κ} (wrote : Write.after (Memory.engine limits) world writes = before)
    (ran : (pager.ask key).run before = (.ok page, left)) (goesOn : pager.next page = some next)
    (later : List (List Write)) :
    pager.visits limits world key (writes :: later) =
      ⟨before, .ok page⟩ :: pager.visits limits left (some next) later := by
  simp only [visits, wrote, ran, goesOn]

theorem visits_last {world before left : World Memory} {key : Option κ} {writes : List Write} {page : β}
    (wrote : Write.after (Memory.engine limits) world writes = before)
    (ran : (pager.ask key).run before = (.ok page, left)) (stops : pager.next page = none)
    (later : List (List Write)) :
    pager.visits limits world key (writes :: later) = [⟨before, .ok page⟩] := by
  simp only [visits, wrote, ran, stops]

def oneByOne : Request where
  table := "names"
  slot := none
  condition := ⟨"partitionKey", "Name", "sortKey", none⟩
  filter := []
  limit := some 1
  startKey := none
  forward := true

def nameItem (name : String) : Item :=
  .ofList [("partitionKey", Value.string "Name"), ("sortKey", .string name)]

def putName (name : String) : Write := .put "names" (nameItem name) .always

def deleteName (name : String) : Write := .delete "names" ⟨"Name", name⟩

def placedName (name : String) : Position × Item := (⟨name, ⟨"Name", name⟩⟩, nameItem name)

def startName (name : String) : LastKey := Contents.lastKey oneByOne.condition (placedName name)

def withAda : World Memory :=
  Write.after (Memory.engine .standard) (.ofState .empty) [putName "Ada", putName "Ben"]

def withCem : World Memory :=
  Write.after (Memory.engine .standard) (withAda.asked .query 1) [deleteName "Ada", putName "Cem"]

def nameVisits : List (Visit QueryPage) :=
  (ofRequest .standard oneByOne).visits .standard (.ofState .empty) none
    [[putName "Ada", putName "Ben"], [deleteName "Ada", putName "Cem"], [], []]

-- The tables list the names in order, so that sorting them changes nothing.
theorem ask_name {world : World Memory} {key : Option LastKey} {start : Option Position}
    {remaining : List (Position × Item)} (starts : StartsAt "sortKey" key start)
    (sorted : ((world.state.store.contents "names").selected oneByOne.condition).Pairwise
      fun a b => (compare a.1 b.1).isLE = true)
    (left : ((world.state.store.contents "names").selected oneByOne.condition).filter
      (fun placed => start.all fun start => placed.1.isBeyond true start) = remaining) :
    ((ofRequest .standard oneByOne).ask key).run world =
      (.ok (oneByOne.pageOf remaining), world.asked .query 1) := by
  have behind : (world.state.store.contents oneByOne.table).behind oneByOne.condition
      oneByOne.forward start = remaining := by
    rw [Contents.behind, ← left]
    exact congrArg (List.filter _) (List.mergeSort_of_pairwise sorted)
  change ((Memory.engine .standard).query (oneByOne.resumeFrom key)).run world = _
  rw [Memory.run_query, Store.page_resumeFrom _ _ starts, behind]
  rfl

theorem nameVisits_eq : nameVisits =
    [⟨withAda, .ok (oneByOne.pageOf [placedName "Ada", placedName "Ben"])⟩,
      ⟨withCem, .ok (oneByOne.pageOf [placedName "Ben", placedName "Cem"])⟩,
      ⟨withCem.asked .query 1, .ok (oneByOne.pageOf [placedName "Cem"])⟩] := by
  have starts (name : String) : StartsAt "sortKey" (some (startName name)) (some (placedName name).1) :=
    rfl
  have first : ((ofRequest .standard oneByOne).ask none).run withAda =
      (.ok (oneByOne.pageOf [placedName "Ada", placedName "Ben"]), withAda.asked .query 1) :=
    ask_name (show StartsAt "sortKey" none none from trivial) (by decide +kernel) rfl
  have second : ((ofRequest .standard oneByOne).ask (some (startName "Ada"))).run withCem =
      (.ok (oneByOne.pageOf [placedName "Ben", placedName "Cem"]), withCem.asked .query 1) :=
    ask_name (starts "Ada") (by decide +kernel) rfl
  have third : ((ofRequest .standard oneByOne).ask (some (startName "Ben"))).run
      (withCem.asked .query 1) =
      (.ok (oneByOne.pageOf [placedName "Cem"]), (withCem.asked .query 1).asked .query 1) :=
    ask_name (starts "Ben") (by decide +kernel) rfl
  have afterAda : (oneByOne.pageOf [placedName "Ada", placedName "Ben"]).lastKey = some (startName "Ada") :=
    rfl
  have afterBen : (oneByOne.pageOf [placedName "Ben", placedName "Cem"]).lastKey = some (startName "Ben") :=
    rfl
  rw [nameVisits, visits_next rfl first afterAda, visits_next rfl second afterBen,
    visits_last rfl third rfl]
  rfl

theorem names_survive_writes :
    (ofRequest .standard oneByOne).Ended nameVisits ∧
      nameVisits.map (fun visit => visit.answer.toOption.map fun page =>
          page.items.map fun item => item.text? "sortKey") =
        [some [some "Ada"], some [some "Ben"], some [some "Cem"]] ∧
      ∃ pages, (ofRequest .standard oneByOne).Returns oneByOne
        (fun items answer => answer.map QueryPage.items = .ok items) nameVisits pages := by
  refine ⟨?_, ?_, (pages_survive_writes ⟨[], rfl⟩ _).1 oneByOne (by decide)⟩
  · rw [nameVisits_eq]
    exact ⟨_, _, rfl, rfl, rfl⟩
  · rw [nameVisits_eq]
    rfl

end Pager

end SharedTable
