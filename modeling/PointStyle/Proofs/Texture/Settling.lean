import Mathlib.Data.List.Basic
import PointStyle.Texture.Pool

/-! Textures in use. The holders of a handle, the workers and whoever changes the resources take
their steps in any order; each step is taken under one lock, so it is atomic. A texture moves only
when its own worker does: it is loading until the worker settles it, and never changes again. -/
namespace PointStyle

namespace Texture

/-- What the holder of a handle may ask. A wait asks whenever its caller wakes, for whatever reason;
if it is timed, its time may be over. -/
inductive Query where
  | state
  | isReady
  | image
  | wait
  | waitTimeout (isOver : Bool)

inductive Answer where
  | state (state : State)
  | isReady (isReady : Bool)
  | image (image : Option Image)
  /-- The wait returns. -/
  | returned (outcome : Outcome)
  /-- The wait returns without an outcome. -/
  | gaveUp
  /-- The wait goes on. -/
  | asleep

/-- What a texture replies. A wait goes on as long as there is no outcome, unless its time is
over. -/
def Cell.reply (cell : Cell) : Query → Answer
  | .state => .state cell.state
  | .isReady => .isReady cell.state.isReady
  | .image => .image cell.state.image?
  | .wait =>
    match cell.outcome? with
    | some outcome => .returned outcome
    | none => .asleep
  | .waitTimeout isOver =>
    match cell.outcome? with
    | some outcome => .returned outcome
    | none => if isOver then .gaveUp else .asleep

/-- The answers that the holders of a texture of a source are owed, state by state. -/
def State.answer (src : String) : State → Query → Answer
  | .idle, .state => .state .idle
  | .idle, .isReady => .isReady false
  | .idle, .image => .image none
  | .idle, .wait => .returned (.error (.loadFailed src .neverStarted))
  | .idle, .waitTimeout _ => .returned (.error (.loadFailed src .neverStarted))
  | .loading, .state => .state .loading
  | .loading, .isReady => .isReady false
  | .loading, .image => .image none
  | .loading, .wait => .asleep
  | .loading, .waitTimeout false => .asleep
  | .loading, .waitTimeout true => .gaveUp
  | .ready image, .state => .state (.ready image)
  | .ready _, .isReady => .isReady true
  | .ready image, .image => .image (some image)
  | .ready image, .wait => .returned (.ok image)
  | .ready image, .waitTimeout _ => .returned (.ok image)
  | .failed error, .state => .state (.failed error)
  | .failed _, .isReady => .isReady false
  | .failed _, .image => .image none
  | .failed error, .wait => .returned (.error error)
  | .failed error, .waitTimeout _ => .returned (.error error)

/-- Textures reply as they owe it to their holders. -/
theorem Cell.reply_eq_answer (cell : Cell) (query : Query) :
    cell.reply query = cell.state.answer cell.src query := by
  obtain ⟨src, _, state, _⟩ := cell
  cases query with
  | state | isReady | image | wait => cases state <;> rfl
  | waitTimeout isOver => cases state <;> cases isOver <;> rfl

/-- The resources and the textures that are loaded from them. -/
structure World where
  memory : Resource.Memory
  pool : Pool

/-- One step of one of the parties. All copies of a handle are that handle. -/
inductive Action where
  | insert (src : String) (bytes : Bytes)
  | remove (src : String)
  | spawn (src crossOrigin : String)
  | idle (src crossOrigin : String)
  | loadBlocking (src crossOrigin : String)
  /-- The worker of the texture fetches what the resources hold now. -/
  | fetch (handle : Handle)
  /-- The worker of the texture settles it. -/
  | settle (handle : Handle)
  | ask (handle : Handle) (query : Query)

/-- The question that an action puts to a texture. -/
def Action.query? (handle : Handle) : Action → Option Query
  | .ask other query => if other = handle then some query else none
  | _ => none

/-- What the holders of a handle ask, one after the other. -/
def asked (handle : Handle) (actions : List Action) : List Query :=
  actions.filterMap (Action.query? handle)

namespace World

variable (decoder : Image.Decoder)

def step (world : World) : Action → World
  | .insert src bytes => { world with memory := Table.insert world.memory src bytes }
  | .remove src => { world with memory := Table.remove world.memory src }
  | .spawn src crossOrigin => { world with pool := (world.pool.spawn src crossOrigin).2 }
  | .idle src crossOrigin => { world with pool := (world.pool.idle src crossOrigin).2 }
  | .loadBlocking src crossOrigin =>
    { world with
      pool := (world.pool.loadBlocking world.memory.provider src crossOrigin decoder).2 }
  | .fetch handle => { world with pool := world.pool.fetch world.memory.provider handle decoder }
  | .settle handle => { world with pool := world.pool.settle handle }
  | .ask _ _ => world

def run (world : World) (actions : List Action) : World :=
  actions.foldl (step decoder) world

/-- What the holders of a handle are told by one step. -/
def told (world : World) (handle : Handle) (action : Action) : List (Query × Answer) :=
  (action.query? handle).toList.flatMap fun query =>
    (world.pool.get? handle).toList.map fun cell => (query, cell.reply query)

/-- What the holders of a handle are told, one after the other. -/
def observed (world : World) (handle : Handle) : List Action → List (Query × Answer)
  | [] => []
  | action :: rest => world.told handle action ++ (world.step decoder action).observed handle rest

/-- All questions are answered, each as the state says. -/
def Answered (state : State) (src : String) (handle : Handle) (actions : List Action)
    (seen : List (Query × Answer)) : Prop :=
  seen = (asked handle actions).map fun query => (query, state.answer src query)

/-- Answers to some actions and to those after them are answers to all of them. -/
theorem Answered.append {state : State} {src : String} {handle : Handle}
    {first second : List Action} {seen later : List (Query × Answer)}
    (hFirst : Answered state src handle first seen)
    (hSecond : Answered state src handle second later) :
    Answered state src handle (first ++ second) (seen ++ later) := by
  rw [Answered, hFirst, hSecond, asked, asked, asked, List.filterMap_append, List.map_append]

theorem run_append (world : World) (first second : List Action) :
    world.run decoder (first ++ second) = (world.run decoder first).run decoder second :=
  List.foldl_append

/-- What is observed over a run is observed over its parts. -/
theorem observed_append (world : World) (handle : Handle) (first second : List Action) :
    world.observed decoder handle (first ++ second) =
      world.observed decoder handle first ++
        (world.run decoder first).observed decoder handle second := by
  induction first generalizing world with
  | nil => rfl
  | cons action rest ih =>
      rw [List.cons_append, observed, ih, observed, List.append_assoc]
      rfl

/-- What a step does to the texture of a handle. -/
def change (world : World) (handle : Handle) (cell : Cell) : Action → Cell
  | .fetch other => if other = handle then cell.fetch world.memory.provider decoder else cell
  | .settle other => if other = handle then cell.settle else cell
  | _ => cell

/-- A texture is moved by its own worker only. -/
theorem get?_step {world : World} {handle : Handle} {cell : Cell}
    (h : world.pool.get? handle = some cell) (action : Action) :
    (world.step decoder action).pool.get? handle =
      some (world.change decoder handle cell action) := by
  have hAdd : ∀ other, (world.pool.add other).2.get? handle = some cell := by
    intro other
    rw [Pool.get?_add_of_lt other (List.getElem?_eq_some_iff.mp h).1, h]
  have hModify : ∀ other f, (world.pool.modify other f).get? handle =
      some (if other = handle then f cell else cell) := by
    intro other f
    rw [Pool.get?, Pool.modify, List.getElem?_modify,
      show world.pool.cells[handle.index]? = _ from h]
    by_cases hSame : other = handle
    · simp [hSame]
    · have hIndex : other.index ≠ handle.index := fun hEq => hSame (congrArg Handle.mk hEq)
      simp [hSame, hIndex]
  cases action with
  | insert | remove | ask => exact h
  | spawn | idle | loadBlocking => exact hAdd _
  | fetch other => exact hModify other _
  | settle other => exact hModify other _

/-- What a holder is told is an answer for the state of the texture. -/
theorem told_eq {world : World} {handle : Handle} {cell : Cell}
    (h : world.pool.get? handle = some cell) (action : Action) :
    Answered cell.state cell.src handle [action] (world.told handle action) := by
  rw [Answered, asked, told, h]
  cases hQuery : action.query? handle with
  | none => simp [hQuery]
  | some query => simp [hQuery, cell.reply_eq_answer]

/-- As long as no step moves a texture, its holders are told the same. -/
theorem observed_of_unmoved {world : World} {handle : Handle} {cell : Cell}
    (h : world.pool.get? handle = some cell) {actions : List Action}
    (hUnmoved : ∀ action ∈ actions, ∀ world : World,
      world.change decoder handle cell action = cell) :
    (world.run decoder actions).pool.get? handle = some cell ∧
      Answered cell.state cell.src handle actions (world.observed decoder handle actions) := by
  induction actions generalizing world with
  | nil => exact ⟨h, rfl⟩
  | cons action rest ih =>
      obtain ⟨hFirst, hRest⟩ := List.forall_mem_cons.mp hUnmoved
      have hNext := get?_step decoder h action
      rw [hFirst world] at hNext
      obtain ⟨hRun, hSeen⟩ := ih hNext hRest
      exact ⟨hRun, (told_eq h action).append hSeen⟩

/-- A step changes nothing that the worker would leave as it is. -/
theorem change_eq_self {world : World} {handle : Handle} {cell : Cell} {action : Action}
    (hFetch : action = .fetch handle → ∀ provider, cell.fetch provider decoder = cell)
    (hSettle : action = .settle handle → cell.settle = cell) :
    world.change decoder handle cell action = cell := by
  cases action with
  | fetch other =>
      rw [change]
      by_cases hSame : other = handle
      · rw [if_pos hSame, hFetch (congrArg Action.fetch hSame)]
      · rw [if_neg hSame]
  | settle other =>
      rw [change]
      by_cases hSame : other = handle
      · rw [if_pos hSame, hSettle (congrArg Action.settle hSame)]
      · rw [if_neg hSame]
  | insert | remove | spawn | idle | loadBlocking | ask => rfl

/-- A texture without a worker stays as it is. -/
theorem change_of_done {world : World} {handle : Handle} {cell : Cell} (hWork : cell.work = .none)
    (action : Action) : world.change decoder handle cell action = cell := by
  apply change_eq_self
  · intro _ provider
    rw [Cell.fetch, hWork]
  · intro _
    rw [Cell.settle, hWork]

/-- A texture whose worker has not fetched is changed only when it fetches. -/
theorem change_of_pending {world : World} {handle : Handle} {cell : Cell}
    (hWork : cell.work = .pending) {action : Action} (hAction : action ≠ .fetch handle) :
    world.change decoder handle cell action = cell := by
  apply change_eq_self
  · exact fun hFetch => absurd hFetch hAction
  · intro _
    rw [Cell.settle, hWork]

/-- A texture whose worker has fetched is changed only when it is settled. -/
theorem change_of_fetched {world : World} {handle : Handle} {cell : Cell} {outcome : Outcome}
    (hWork : cell.work = .fetched outcome) {action : Action} (hAction : action ≠ .settle handle) :
    world.change decoder handle cell action = cell := by
  apply change_eq_self
  · intro _ provider
    rw [Cell.fetch, hWork]
  · exact fun hSettle => absurd hSettle hAction

/-- The state of a texture that is loaded at once, from what the resources hold now. -/
def blockingState (world : World) (src crossOrigin : String) : Option State :=
  let made := world.pool.loadBlocking world.memory.provider src crossOrigin decoder
  (made.2.get? made.1).map (·.state)

/-- Loading at once gives the outcome of loading from what is held then. -/
theorem blockingState_eq (world : World) (src crossOrigin : String) :
    world.blockingState decoder src crossOrigin =
      some (.ofOutcome (load world.memory.provider src decoder)) := by
  rw [blockingState, Pool.loadBlocking, Pool.get?_add]
  rfl

theorem load_ne_neverStarted (memory : Resource.Memory) (src : String) :
    load memory.provider src decoder ≠ .error (.loadFailed src .neverStarted) := by
  show (memory.load src >>= fun bytes => Image.ofSource src bytes decoder) ≠ _
  rw [Resource.Memory.load]
  cases Table.get? memory src with
  | none => nofun
  | some bytes =>
      show (decoder bytes).mapError (ResourceError.decode src) ≠ _
      cases decoder bytes <;> nofun

/-- A run settles the texture of a handle: its worker fetches after some steps, and settles it after
some more. -/
structure SettledBy (world : World) (handle : Handle) (src crossOrigin : String)
    (before middle after : List Action) (settled : State) : Prop where
  first_fetch : .fetch handle ∉ before
  first_settle : .settle handle ∉ middle
  /-- Loading at once when the worker fetched would have made a texture in the same state. -/
  blocking : (world.run decoder before).blockingState decoder src crossOrigin = some settled
  /-- The state has an image, or an error other than that of a texture that nobody loads. -/
  shown : (∃ image, settled = .ready image) ∨
    ∃ error, settled = .failed error ∧ error ≠ .loadFailed src .neverStarted
  /-- What is told before the texture is settled. -/
  early : Answered .loading src handle (before ++ .fetch handle :: middle)
    (world.observed decoder handle (before ++ .fetch handle :: middle))
  /-- What is told afterwards. -/
  late : Answered settled src handle (.settle handle :: after)
    ((world.run decoder (before ++ .fetch handle :: middle)).observed decoder handle
      (.settle handle :: after))

/-- Its worker never comes to settle the texture of a handle, whose holders are told that it is
loading. -/
structure LoadingThroughout (world : World) (handle : Handle) (src : String)
    (actions : List Action) : Prop where
  unsettled : ¬ [.fetch handle, .settle handle].Sublist actions
  seen : Answered .loading src handle actions (world.observed decoder handle actions)

/-- Resources in memory are missing or hold bytes that decode or do not. -/
theorem shown_ofOutcome_load (memory : Resource.Memory) (src : String) :
    (∃ image, State.ofOutcome (load memory.provider src decoder) = .ready image) ∨
      ∃ error, State.ofOutcome (load memory.provider src decoder) = .failed error ∧
        error ≠ .loadFailed src .neverStarted := by
  have hLoad := load_ne_neverStarted decoder memory src
  cases hOutcome : load memory.provider src decoder with
  | ok image => exact .inl ⟨image, rfl⟩
  | error error => exact .inr ⟨error, rfl, fun hError => hLoad (hOutcome.trans (hError ▸ rfl))⟩

/-- A worker that fetches here for the first time and does not settle after has not done both. -/
theorem not_fetch_settle_sublist {handle : Handle} {before rest : List Action}
    (hBefore : .fetch handle ∉ before) (hRest : .settle handle ∉ rest) :
    ¬ [.fetch handle, .settle handle].Sublist (before ++ .fetch handle :: rest) := by
  intro h
  obtain ⟨first, second, hSplit, hFirst, hSecond⟩ := List.sublist_append_iff.mp h
  cases first with
  | nil =>
      rw [List.nil_append] at hSplit
      rw [← hSplit, List.cons_sublist_cons] at hSecond
      exact hRest (List.singleton_sublist.mp hSecond)
  | cons action others =>
      obtain ⟨rfl, -⟩ := List.cons.inj hSplit
      exact hBefore (hFirst.subset List.mem_cons_self)

/-- A texture that a worker has yet to load is loading throughout a run, or the run settles it. -/
theorem loading_or_settledBy {world : World} {handle : Handle} {src crossOrigin : String}
    (h : world.pool.get? handle = some ⟨src, crossOrigin, .loading, .pending⟩)
    (actions : List Action) :
    world.LoadingThroughout decoder handle src actions ∨
      ∃ before middle after settled,
        actions = before ++ .fetch handle :: middle ++ .settle handle :: after ∧
        world.SettledBy decoder handle src crossOrigin before middle after settled := by
  by_cases hFetch : .fetch handle ∈ actions
  case neg =>
    refine .inl ⟨fun hSub => hFetch (hSub.subset List.mem_cons_self),
      (observed_of_unmoved decoder h fun action hAction _ => ?_).2⟩
    exact change_of_pending decoder rfl fun hEq => hFetch (hEq ▸ hAction)
  obtain ⟨before, rest, rfl, hBefore⟩ := List.eq_append_cons_of_mem hFetch
  obtain ⟨hPending, hSeenBefore⟩ := observed_of_unmoved decoder h fun action hAction _ =>
    change_of_pending decoder rfl fun hEq => hBefore (hEq ▸ hAction)
  -- The outcome is fixed when the worker fetches, though nobody is told before it settles.
  have hFetched := get?_step decoder hPending (.fetch handle)
  rw [change, if_pos rfl] at hFetched
  have hSeen : ∀ actions, .settle handle ∉ actions →
      Answered .loading src handle (before ++ .fetch handle :: actions)
        (world.observed decoder handle (before ++ .fetch handle :: actions)) := by
    intro actions hActions
    have hSeenAfter := (observed_of_unmoved decoder hFetched fun action hAction _ =>
      change_of_fetched decoder rfl fun hEq => hActions (hEq ▸ hAction)).2
    rw [observed_append]
    exact hSeenBefore.append hSeenAfter
  by_cases hSettle : .settle handle ∈ rest
  case neg => exact .inl ⟨not_fetch_settle_sublist hBefore hSettle, hSeen rest hSettle⟩
  obtain ⟨middle, after, rfl, hMiddle⟩ := List.eq_append_cons_of_mem hSettle
  have hReady := (observed_of_unmoved decoder hFetched fun action hAction _ =>
    change_of_fetched decoder rfl fun hEq => hMiddle (hEq ▸ hAction)).1
  have hDone := get?_step decoder hReady (.settle handle)
  rw [change, if_pos rfl] at hDone
  refine .inr ⟨before, middle, after, _, by simp, hBefore, hMiddle, blockingState_eq ..,
    shown_ofOutcome_load decoder _ _, hSeen middle hMiddle, ?_⟩
  rw [run_append]
  exact (observed_of_unmoved decoder hDone fun action _ _ => change_of_done decoder rfl action).2

/-- Textures settle once, and all that their holders are told agrees, in whatever order the steps
are taken. A texture that is left to a worker is loading, or its worker fetched and settled it: then
it was loading before and shows from then on the one state that loading it at once would have given
it when the worker fetched. A texture that nobody loads stays as it is. -/
theorem settles_once (memory : Resource.Memory) (pool : Pool) (src crossOrigin : String)
    (actions : List Action) :
    (let spawned := pool.spawn src crossOrigin
      let world : World := ⟨memory, spawned.2⟩
      world.LoadingThroughout decoder spawned.1 src actions ∨
        ∃ before middle after settled,
          actions = before ++ .fetch spawned.1 :: middle ++ .settle spawned.1 :: after ∧
          world.SettledBy decoder spawned.1 src crossOrigin before middle after settled) ∧
      (let made := pool.idle src crossOrigin
        let world : World := ⟨memory, made.2⟩
        Answered .idle src made.1 actions (world.observed decoder made.1 actions)) := by
  constructor
  · exact loading_or_settledBy decoder (Pool.get?_add ..) actions
  · have hIdle : (World.mk memory (pool.idle src crossOrigin).2).pool.get?
        (pool.idle src crossOrigin).1 = some ⟨src, crossOrigin, .idle, .none⟩ := pool.get?_add _
    exact (observed_of_unmoved decoder hIdle fun action _ _ => change_of_done decoder rfl action).2

/-- The image is taken out of memory between the two steps of the worker. There are questions
before, between and after them. -/
def sampleRun (handle : Handle) : List Action :=
  [.ask handle .state] ++ .fetch handle ::
    ([.remove "pin.png", .ask handle .wait, .ask handle (.waitTimeout true)] ++ .settle handle ::
      [.ask handle .isReady, .ask handle .image, .ask handle (.waitTimeout true)])

/-- The image was there when the worker fetched, so the texture is ready in the end. -/
theorem settles_once_sampleRun :
    let image : Image := ⟨1, 1, [0, 0, 0, 255]⟩
    let decoder : Image.Decoder := fun _ => .ok image
    let spawned := Pool.empty.spawn "pin.png" "anonymous"
    let world : World := ⟨[("pin.png", [])], spawned.2⟩
    ∃ before middle after,
      sampleRun spawned.1 = before ++ .fetch spawned.1 :: middle ++ .settle spawned.1 :: after ∧
      world.SettledBy decoder spawned.1 "pin.png" "anonymous" before middle after (.ready image) ∧
      world.observed decoder spawned.1 (before ++ .fetch spawned.1 :: middle) =
        [(.state, .state .loading), (.wait, .asleep), (.waitTimeout true, .gaveUp)] ∧
      (world.run decoder (before ++ .fetch spawned.1 :: middle)).observed decoder spawned.1
          (.settle spawned.1 :: after) =
        [(.isReady, .isReady true), (.image, .image (some image)),
          (.waitTimeout true, .returned (.ok image))] := by
  intro image decoder spawned world
  rcases (settles_once decoder [("pin.png", [])] .empty "pin.png" "anonymous"
    (sampleRun spawned.1)).1 with hLoading | ⟨before, middle, after, settled, hRun, hSettled⟩
  · refine absurd ?_ hLoading.unsettled
    simp [sampleRun, spawned]
  · -- The worker takes each of its steps once, so the run is split in one way only.
    have hSplit := hRun
    rw [List.append_assoc, List.cons_append, sampleRun,
      List.append_cons_inj_of_notMem (by simp) (by simp)] at hSplit
    obtain ⟨rfl, -, hSplit⟩ := hSplit
    rw [List.append_cons_inj_of_notMem (by simp) (by simp)] at hSplit
    obtain ⟨rfl, -, rfl⟩ := hSplit
    obtain rfl : State.ready image = settled := Option.some.inj hSettled.blocking
    exact ⟨_, _, _, hRun, hSettled, hSettled.early, hSettled.late⟩

end World

end Texture

end PointStyle
