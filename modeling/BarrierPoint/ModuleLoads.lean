/-
This file follows the client through an application that loads modules while it
runs. A load looks for the parallel functions of the module by their names, keeps
the names by address and wraps the functions; calls of wrapped functions are the
callbacks of the client. It is proved that loading late does not matter when no
function is called before its module is loaded: the client does what it would do
with all modules loaded from the start, and it never looks for a name that it
does not have.
-/

import BarrierPoint.Interleavings
import BarrierPoint.Library.Learning
import BarrierPoint.MasterPoints

namespace BarrierPoint

open Library

/-! ### The callbacks of a module -/

/-- The callbacks that the client wraps functions with. -/
inductive Callback where
  | ompParallel
  | roiInit
  | roiEnd
  | barrier
  | single
  deriving DecidableEq, Repr

/-- The callback runs for a call of the function at an address. -/
def Callback.event (context : DrContext) (address : Address) : Callback → Event
  | ompParallel => .ompParallel context address
  | roiInit => .roiInit context
  | roiEnd => .roiEnd context
  | barrier => .barrier context
  | single => .single context

/-- `module_data_t`, and what `drsyms` and DynamoRIO look up in the module: all of its symbols with
their offsets, the offset of a symbol by its demangled name, and the address of an exported
function. -/
structure Module where
  start : Address
  symbols : List (String × Address)
  lookupSymbol : String → Option Address
  preferredName : String
  getProcAddress : String → Option Address

/-- What of the wraps concerns the function at an address. -/
def wrapsAt (wraps : List (Address × Callback)) (address : Address) : List (Address × Callback) :=
  wraps.filter fun wrap => wrap.1 = address

/-- `DynamoRIO`: the callbacks it runs for a call of a function, from those that functions were
wrapped with. It runs no others, and the wraps of other functions do not matter. -/
structure Drwrap where
  callbacks : List (Address × Callback) → Address → List Callback
  wrapped : ∀ wraps address, ∀ callback ∈ callbacks wraps address, (address, callback) ∈ wraps
  callbacks_congr : ∀ wraps later address, wrapsAt wraps address = wrapsAt later address →
    callbacks wraps address = callbacks later address

/-- The last callback that a function was wrapped with runs first. A function that is wrapped with a
callback again keeps it. -/
def Drwrap.lastFirst : Drwrap where
  callbacks := fun wraps address => ((wrapsAt wraps address).map Prod.snd).reverse.dedup
  wrapped := by
    intro wraps address callback member
    rw [List.mem_dedup, List.mem_reverse, List.mem_map] at member
    obtain ⟨wrap, member, rfl⟩ := member
    obtain ⟨member, same⟩ := List.mem_filter.mp member
    rwa [← of_decide_eq_true same]
  callbacks_congr := fun _ _ _ same => by rw [same]

instance : Inhabited Drwrap := ⟨.lastFirst⟩

/-- `roi_f`. -/
def roiF : List (String × Callback) := [("SimRoiStart", .roiInit), ("SimRoiEnd", .roiEnd)]

/-- `gomp_f`. -/
def gompF : List (String × Callback) := [("GOMP_barrier", .barrier), ("GOMP_single_start", .single)]

/-- `omp_functions`, `parallel_omp_f`, and the calls of `drwrap_wrap` so far. -/
structure Hooks where
  ompFunctions : List (String × Address)
  parallelOmpF : UnorderedMap Address String
  wraps : List (Address × Callback)

namespace Hooks

def new : Hooks where
  ompFunctions := []
  parallelOmpF := ∅
  wraps := []

/-- `drwrap_wrap`. -/
def wrap (hooks : Hooks) (address : Address) (callback : Callback) : Hooks :=
  { hooks with wraps := hooks.wraps ++ [(address, callback)] }

/-- `enumerate_symbols_event`. -/
def enumerateSymbolsEvent (hooks : Hooks) (symbol : String × Address) : Hooks :=
  if OmpNamed symbol.1 then { hooks with ompFunctions := hooks.ompFunctions ++ [symbol] }
  else hooks

/-- Wrap the functions of a table that are found at an address. -/
def wrapTable (hooks : Hooks) (table : List (String × Callback))
    (find : String → Option Address) : Hooks :=
  table.foldl (fun hooks f => (find f.1).elim hooks fun address => hooks.wrap address f.2) hooks

/-- `register_roi_f`. -/
def registerRoiF (hooks : Hooks) (module : Module) : Hooks :=
  hooks.wrapTable roiF fun name => (module.lookupSymbol name).map (· + module.start)

/-- Wrap a function that was found, and keep its name. -/
def registerFunction (start : Address) (hooks : Hooks) (f : String × Address) : Hooks :=
  let hooks := hooks.wrap (f.2 + start) .ompParallel
  { hooks with parallelOmpF := hooks.parallelOmpF.insertNew (f.2 + start) f.1 }

/-- `register_omp_f`. -/
def registerOmpF (hooks : Hooks) (module : Module) : Hooks :=
  let hooks := module.symbols.foldl enumerateSymbolsEvent hooks
  if hooks.ompFunctions ≠ [] then
    { hooks.ompFunctions.foldl (registerFunction module.start) hooks with ompFunctions := [] }
  else hooks

/-- The wraps of `libgomp`. -/
def registerGompF (hooks : Hooks) (module : Module) : Hooks :=
  if "libgomp.so".toList <:+: module.preferredName.toList then
    hooks.wrapTable gompF module.getProcAddress
  else hooks

/-- `module_load_event`. -/
def moduleLoadEvent (hooks : Hooks) (module : Module) : Hooks :=
  ((hooks.registerRoiF module).registerOmpF module).registerGompF module

end Hooks

/-- The wraps of the functions of a table that are found at an address. -/
def foundIn (table : List (String × Callback)) (find : String → Option Address) :
    List (Address × Callback) :=
  table.filterMap fun f => (find f.1).map (·, f.2)

/-- The parallel functions of a module, with their addresses. -/
def Hooks.functions (module : Module) : List (String × Address) :=
  (module.symbols.filter fun symbol => OmpNamed symbol.1).map fun symbol =>
    (symbol.1, symbol.2 + module.start)

/-- What a load of the module wraps. -/
def Module.wraps (module : Module) : List (Address × Callback) :=
  foundIn roiF (fun name => (module.lookupSymbol name).map (· + module.start)) ++
    (Hooks.functions module).map (fun f => (f.2, .ompParallel)) ++
    if "libgomp.so".toList <:+: module.preferredName.toList then
      foundIn gompF module.getProcAddress
    else []

/-! ### The client of an application that loads modules -/

/-- The application calls a function, or makes the client act in another way. -/
inductive Trigger where
  | call (context : DrContext) (address : Address)
  | threadInit (context : DrContext) (threadId : UInt32)
  | threadExit (context : DrContext)
  | cleanCall (context : DrContext) (instCount : UInt64) (address : Address)
  | memRef (context : DrContext) (address : Address)
  deriving DecidableEq, Repr

/-- What DynamoRIO invokes. -/
def Drwrap.events (drwrap : Drwrap) (hooks : Hooks) : Trigger → List Event
  | .call context address =>
      (drwrap.callbacks hooks.wraps address).map (Callback.event context address)
  | .threadInit context threadId => [.threadInit context threadId]
  | .threadExit context => [.threadExit context]
  | .cleanCall context instCount address => [.cleanCall context instCount address]
  | .memRef context address => [.memRef context address]

/-- The names that the client looks up. -/
def Config.knowing (config : Config) (hooks : Hooks) : Config :=
  { config with parallelOmpF := hooks.parallelOmpF }

/-- The client with its loads. -/
def loadingClient (drwrap : Drwrap) (config : Config) :
    Learner Hooks Module Trigger Event Client where
  learn := Hooks.moduleLoadEvent
  actions := drwrap.events
  act := fun hooks => Client.step (config.knowing hooks)

/-- No function is called before its module is loaded: modules that are loaded later wrap none that
has been called. -/
def LoadedBeforeCalls : List (Input Module Trigger) → Prop
  | [] => True
  | .trigger (.call _ address) :: inputs =>
      (∀ module ∈ lessons inputs, wrapsAt module.wraps address = []) ∧ LoadedBeforeCalls inputs
  | _ :: inputs => LoadedBeforeCalls inputs

instance decidableLoadedBeforeCalls :
    (inputs : List (Input Module Trigger)) → Decidable (LoadedBeforeCalls inputs)
  | [] => .isTrue trivial
  | .learn _ :: inputs => decidableLoadedBeforeCalls inputs
  | .trigger (.call _ _) :: inputs => @instDecidableAnd _ _ _ (decidableLoadedBeforeCalls inputs)
  | .trigger (.threadInit _ _) :: inputs => decidableLoadedBeforeCalls inputs
  | .trigger (.threadExit _) :: inputs => decidableLoadedBeforeCalls inputs
  | .trigger (.cleanCall _ _ _) :: inputs => decidableLoadedBeforeCalls inputs
  | .trigger (.memRef _ _) :: inputs => decidableLoadedBeforeCalls inputs

/-- The output files of an application that loads modules. -/
def loadingFiles (drwrap : Drwrap) (config : Config) (inputs : List (Input Module Trigger)) :
    Option BarrierPointData.Files :=
  (run (loadingClient drwrap config).step (Hooks.new, Client.new) inputs).bind fun state =>
    Client.eventExit (config.knowing state.1) state.2

/-! ### What a load adds -/

namespace Hooks

variable {hooks : Hooks} {module : Module}

/-- The functions to register were registered, and every function that is wrapped as a parallel one
has a name. -/
structure Sound (hooks : Hooks) : Prop where
  registered : hooks.ompFunctions = []
  named : ∀ address, (address, Callback.ompParallel) ∈ hooks.wraps →
    (hooks.parallelOmpF.lookup address).isSome = true

theorem sound_new : new.Sound := ⟨rfl, fun _ member => absurd member List.not_mem_nil⟩

/-- No name that is known is lost or changed. -/
def Within (hooks later : Hooks) : Prop :=
  ∀ address name, hooks.parallelOmpF.lookup address = some name →
    later.parallelOmpF.lookup address = some name

theorem Within.refl (hooks : Hooks) : hooks.Within hooks := fun _ _ => id

theorem Within.trans {later final : Hooks} (first : hooks.Within later)
    (second : later.Within final) : hooks.Within final :=
  fun address name held => second address name (first address name held)

/-- The hooks after more functions have been wrapped, none of them as a parallel one. -/
structure Wraps (hooks later : Hooks) : Prop where
  ompFunctions_eq : later.ompFunctions = hooks.ompFunctions
  parallelOmpF_eq : later.parallelOmpF = hooks.parallelOmpF
  wraps_of : ∀ address, (address, Callback.ompParallel) ∈ later.wraps →
    (address, Callback.ompParallel) ∈ hooks.wraps

theorem Wraps.refl (hooks : Hooks) : hooks.Wraps hooks := ⟨rfl, rfl, fun _ => id⟩

theorem Wraps.trans {later final : Hooks} (first : hooks.Wraps later) (second : later.Wraps final) :
    hooks.Wraps final where
  ompFunctions_eq := second.ompFunctions_eq.trans first.ompFunctions_eq
  parallelOmpF_eq := second.parallelOmpF_eq.trans first.parallelOmpF_eq
  wraps_of := fun address member => first.wraps_of address (second.wraps_of address member)

theorem Wraps.sound {later : Hooks} (wraps : hooks.Wraps later) (sound : hooks.Sound) :
    later.Sound where
  registered := wraps.ompFunctions_eq.trans sound.registered
  named := fun address member => by
    rw [wraps.parallelOmpF_eq]
    exact sound.named address (wraps.wraps_of address member)

theorem wraps_wrap (address : Address) {callback : Callback} (other : callback ≠ .ompParallel) :
    hooks.Wraps (hooks.wrap address callback) where
  ompFunctions_eq := rfl
  parallelOmpF_eq := rfl
  wraps_of := fun other' member => by
    rcases List.mem_append.mp member with before | here
    · exact before
    · cases List.mem_singleton.mp here
      exact absurd rfl other

theorem wraps_wrapTable (find : String → Option Address) (table : List (String × Callback))
    (others : ∀ f ∈ table, f.2 ≠ .ompParallel) :
    ∀ hooks : Hooks, hooks.Wraps (hooks.wrapTable table find) := by
  induction table with
  | nil => exact Wraps.refl
  | cons f table inductionHypothesis =>
    intro hooks
    rw [List.forall_mem_cons] at others
    rw [wrapTable, List.foldl_cons]
    refine Wraps.trans ?_ (inductionHypothesis others.2 _)
    cases find f.1 with
    | none => exact Wraps.refl hooks
    | some address => exact wraps_wrap address others.1

theorem wraps_registerRoiF (hooks : Hooks) (module : Module) :
    hooks.Wraps (hooks.registerRoiF module) := wraps_wrapTable _ roiF (by decide) hooks

theorem wraps_registerGompF (hooks : Hooks) (module : Module) :
    hooks.Wraps (hooks.registerGompF module) := by
  unfold registerGompF
  split
  · exact wraps_wrapTable _ gompF (by decide) hooks
  · exact .refl hooks

theorem foldl_enumerateSymbolsEvent (symbols : List (String × Address)) : ∀ hooks : Hooks,
    symbols.foldl enumerateSymbolsEvent hooks =
      { hooks with ompFunctions :=
          hooks.ompFunctions ++ symbols.filter fun symbol => OmpNamed symbol.1 } := by
  induction symbols with
  | nil =>
    intro hooks
    rw [List.filter_nil, List.append_nil]
    rfl
  | cons symbol symbols inductionHypothesis =>
    intro hooks
    rw [List.foldl_cons, inductionHypothesis, enumerateSymbolsEvent]
    by_cases named : OmpNamed symbol.1
    · simp [named]
    · simp [named]

theorem foldl_registerFunction (start : Address) (found : List (String × Address)) :
    ∀ hooks : Hooks, found.foldl (registerFunction start) hooks =
      { hooks with
        parallelOmpF := found.foldl (fun known f => known.insertNew (f.2 + start) f.1)
          hooks.parallelOmpF
        wraps := hooks.wraps ++ found.map fun f => (f.2 + start, .ompParallel) } := by
  induction found with
  | nil =>
    intro hooks
    rw [List.map_nil, List.append_nil]
    rfl
  | cons f found inductionHypothesis =>
    intro hooks
    rw [List.foldl_cons, inductionHypothesis, List.map_cons, List.foldl_cons]
    simp only [registerFunction, wrap, List.append_assoc, List.singleton_append]

/-- What `register_omp_f` does when the functions found before have been registered. -/
theorem registerOmpF_eq (registered : hooks.ompFunctions = []) (module : Module) :
    hooks.registerOmpF module =
      { hooks with
        parallelOmpF := BarrierPoint.registerOmpF hooks.parallelOmpF module.start module.symbols
        wraps := hooks.wraps ++ (functions module).map fun f => (f.2, .ompParallel) } := by
  unfold registerOmpF
  dsimp only
  rw [foldl_enumerateSymbolsEvent, registered, List.nil_append]
  split
  · rw [foldl_registerFunction, functions, List.map_map]
    rfl
  · rename_i none
    have none : module.symbols.filter (fun symbol => OmpNamed symbol.1) = [] := not_not.mp none
    rw [functions, BarrierPoint.registerOmpF, none, List.map_nil, List.map_nil, List.append_nil]
    rfl

/-- A name is kept for each function, and the first one stays. -/
theorem lookup_foldl_insertNew (found : List (String × Address)) (address : Address) :
    ∀ known : UnorderedMap Address String,
      (found.foldl (fun known f => known.insertNew f.2 f.1) known).lookup address =
        (known.lookup address).or ((found.find? fun f => f.2 = address).map Prod.fst) := by
  induction found with
  | nil => exact fun known => (Option.or_none).symm
  | cons f found inductionHypothesis =>
    intro known
    rw [List.foldl_cons, inductionHypothesis, UnorderedMap.lookup_insertNew, List.find?_cons]
    by_cases here : f.2 = address
    · subst here
      rw [if_pos rfl, decide_eq_true rfl]
      cases known.lookup f.2 <;> rfl
    · rw [if_neg (Ne.symm here), decide_eq_false here]

theorem registerOmpF_functions (known : UnorderedMap Address String) (module : Module) :
    BarrierPoint.registerOmpF known module.start module.symbols =
      (functions module).foldl (fun known f => known.insertNew f.2 f.1) known := by
  rw [functions, List.foldl_map]
  rfl

theorem lookup_registerOmpF (registered : hooks.ompFunctions = []) (module : Module)
    (address : Address) : (hooks.registerOmpF module).parallelOmpF.lookup address =
      (hooks.parallelOmpF.lookup address).or
        (((functions module).find? fun f => f.2 = address).map Prod.fst) := by
  rw [registerOmpF_eq registered, registerOmpF_functions]
  exact lookup_foldl_insertNew _ address _

/-- Every function that is wrapped as a parallel one gets a name. -/
theorem Sound.registerOmpF (sound : hooks.Sound) (module : Module) :
    (hooks.registerOmpF module).Sound where
  registered := by
    rw [registerOmpF_eq sound.registered]
    exact sound.registered
  named := fun address member => by
    rw [lookup_registerOmpF sound.registered, Option.isSome_or, Bool.or_eq_true]
    rw [registerOmpF_eq sound.registered] at member
    rcases List.mem_append.mp member with before | here
    · exact .inl (sound.named address before)
    · obtain ⟨f, found, same⟩ := List.mem_map.mp here
      rw [Option.isSome_map, List.find?_isSome]
      exact .inr ⟨f, found, decide_eq_true (Prod.mk.inj same).1⟩

theorem Sound.moduleLoadEvent (sound : hooks.Sound) (module : Module) :
    (hooks.moduleLoadEvent module).Sound :=
  (wraps_registerGompF _ module).sound
    (((wraps_registerRoiF hooks module).sound sound).registerOmpF module)

theorem parallelOmpF_moduleLoadEvent (sound : hooks.Sound) (module : Module) :
    (hooks.moduleLoadEvent module).parallelOmpF =
      BarrierPoint.registerOmpF hooks.parallelOmpF module.start module.symbols := by
  rw [moduleLoadEvent, (wraps_registerGompF _ module).parallelOmpF_eq,
    registerOmpF_eq ((wraps_registerRoiF hooks module).sound sound).registered]
  exact congrArg (BarrierPoint.registerOmpF · module.start module.symbols)
    (wraps_registerRoiF hooks module).parallelOmpF_eq

theorem within_moduleLoadEvent (sound : hooks.Sound) (module : Module) :
    hooks.Within (hooks.moduleLoadEvent module) := by
  intro address name held
  rw [parallelOmpF_moduleLoadEvent sound, registerOmpF_functions, lookup_foldl_insertNew, held]
  rfl

theorem wraps_wrapTable_eq (find : String → Option Address) (table : List (String × Callback)) :
    ∀ hooks : Hooks, (hooks.wrapTable table find).wraps = hooks.wraps ++ foundIn table find := by
  induction table with
  | nil => exact fun _ => (List.append_nil _).symm
  | cons f table inductionHypothesis =>
    intro hooks
    rw [wrapTable, List.foldl_cons]
    show (wrapTable _ table find).wraps = _
    rw [inductionHypothesis, foundIn, foundIn, List.filterMap_cons]
    cases find f.1 with
    | none => rfl
    | some address => exact List.append_assoc ..

theorem wraps_registerGompF_eq (hooks : Hooks) (module : Module) :
    (hooks.registerGompF module).wraps = hooks.wraps ++
      if "libgomp.so".toList <:+: module.preferredName.toList then
        foundIn gompF module.getProcAddress
      else [] := by
  unfold registerGompF
  by_cases gomp : "libgomp.so".toList <:+: module.preferredName.toList
  · rw [if_pos gomp, if_pos gomp, wraps_wrapTable_eq]
  · rw [if_neg gomp, if_neg gomp, List.append_nil]

theorem wraps_moduleLoadEvent (sound : hooks.Sound) (module : Module) :
    (hooks.moduleLoadEvent module).wraps = hooks.wraps ++ module.wraps := by
  have roi : (hooks.registerRoiF module).wraps = hooks.wraps ++
      foundIn roiF (fun name => (module.lookupSymbol name).map (· + module.start)) :=
    wraps_wrapTable_eq _ roiF hooks
  have omp : ((hooks.registerRoiF module).registerOmpF module).wraps =
      (hooks.registerRoiF module).wraps ++ (functions module).map (fun f => (f.2, .ompParallel)) := by
    rw [registerOmpF_eq ((wraps_registerRoiF hooks module).sound sound).registered]
  rw [moduleLoadEvent, wraps_registerGompF_eq, omp, roi, Module.wraps]
  simp only [List.append_assoc]

/-! ### Loads before, and loads during the run -/

variable {drwrap : Drwrap} {config : Config}

theorem grows_loadingClient : (loadingClient drwrap config).Grows Sound Within where
  refl := Within.refl
  trans := Within.trans
  sound_learn := fun module sound => sound.moduleLoadEvent module
  within_learn := fun module sound => within_moduleLoadEvent sound module

/-- A callback for a parallel function is invoked where one was wrapped. -/
theorem isSome_lookup_of_mem_events (sound : hooks.Sound) {trigger : Trigger}
    {context : DrContext} {address : Address}
    (member : .ompParallel context address ∈ drwrap.events hooks trigger) :
    (hooks.parallelOmpF.lookup address).isSome = true := by
  cases trigger with
  | call other called =>
    obtain ⟨callback, invoked, same⟩ := List.mem_map.mp member
    cases callback with
    | ompParallel =>
      cases same
      exact sound.named address (drwrap.wrapped _ _ _ invoked)
    | roiInit | roiEnd | barrier | single => cases same
  | threadInit | threadExit | cleanCall | memRef => cases List.mem_singleton.mp member

/-- A callback does not depend on what is loaded later. -/
theorem step_knowing {later : Hooks} (sound : hooks.Sound) (within : hooks.Within later)
    (trigger : Trigger) (client : Client) (event : Event)
    (member : event ∈ drwrap.events hooks trigger) :
    client.step (config.knowing hooks) event = client.step (config.knowing later) event := by
  cases event with
  | ompParallel context address =>
    obtain ⟨name, held⟩ := Option.isSome_iff_exists.mp (isSome_lookup_of_mem_events sound member)
    have kept := within address name held
    show client.eventOmpParallel _ context address = client.eventOmpParallel _ context address
    unfold Client.eventOmpParallel Config.knowing
    dsimp only
    rw [held, kept]
  | _ => rfl

theorem wrapsAt_informed {address : Address} (modules : List Module) :
    ∀ {hooks : Hooks}, hooks.Sound → (∀ module ∈ modules, wrapsAt module.wraps address = []) →
      wrapsAt (modules.foldl moduleLoadEvent hooks).wraps address =
        wrapsAt hooks.wraps address := by
  induction modules with
  | nil => exact fun _ _ => rfl
  | cons module modules inductionHypothesis =>
    intro hooks sound others
    rw [List.forall_mem_cons] at others
    rw [List.foldl_cons, inductionHypothesis (sound.moduleLoadEvent module) others.2,
      wraps_moduleLoadEvent sound, wrapsAt, List.filter_append]
    show wrapsAt hooks.wraps address ++ wrapsAt module.wraps address = _
    rw [others.1, List.append_nil]

/-- A call sets off what it would set off with all modules loaded. -/
theorem settled_of_loadedBeforeCalls {inputs : List (Input Module Trigger)} :
    ∀ {hooks : Hooks}, hooks.Sound → LoadedBeforeCalls inputs →
      (loadingClient drwrap config).Settled hooks inputs := by
  induction inputs with
  | nil => exact fun _ _ => trivial
  | cons input inputs inductionHypothesis =>
    intro hooks sound loaded
    cases input with
    | learn module => exact inductionHypothesis (sound.moduleLoadEvent module) loaded
    | trigger trigger =>
      cases trigger with
      | call context address =>
        have same := wrapsAt_informed (lessons inputs) sound loaded.1
        exact ⟨congrArg (List.map _) (drwrap.callbacks_congr _ _ _ same.symm),
          inductionHypothesis sound loaded.2⟩
      | threadInit | threadExit | cleanCall | memRef =>
        exact ⟨rfl, inductionHypothesis sound loaded⟩

/-- What is known after loads are the names of the modules. -/
theorem parallelOmpF_informed (modules : List Module) : ∀ {hooks : Hooks}, hooks.Sound →
    (modules.foldl moduleLoadEvent hooks).parallelOmpF =
      (modules.flatMap functions).foldl (fun known f => known.insertNew f.2 f.1)
        hooks.parallelOmpF := by
  induction modules with
  | nil => exact fun _ => rfl
  | cons module modules inductionHypothesis =>
    intro hooks sound
    rw [List.foldl_cons, inductionHypothesis (sound.moduleLoadEvent module),
      parallelOmpF_moduleLoadEvent sound, registerOmpF_functions, List.flatMap_cons,
      List.foldl_append]

theorem loadModules_functions (modules : List Module) :
    loadModules (modules.map fun module => (module.start, module.symbols)) =
      (modules.flatMap functions).foldl (fun known f => known.insertNew f.2 f.1) ∅ := by
  rw [loadModules, List.foldl_map, List.foldl_flatMap]
  congr 1
  funext known module
  exact registerOmpF_functions known module

/-- What the client knows at the end: the functions of all modules, a function that several modules
have at an address under the name that was loaded first. -/
theorem lookup_informed (modules : List Module) (address : Address) :
    (modules.foldl moduleLoadEvent new).parallelOmpF.lookup address =
      ((modules.flatMap functions).find? fun f => f.2 = address).map Prod.fst := by
  rw [parallelOmpF_informed modules sound_new, lookup_foldl_insertNew,
    show new.parallelOmpF.lookup address = none from AList.lookup_empty address]
  rfl

end Hooks

namespace Client

/-- The callbacks that an application makes the client take save the files that they would save with
all modules loaded from the start, or fail as they would. -/
theorem loadingFiles_eq (drwrap : Drwrap) (config : Config) (inputs : List (Input Module Trigger)) :
    let loaded := { config with
      parallelOmpF := loadModules ((lessons inputs).map fun module => (module.start, module.symbols)) }
    loadingFiles drwrap config inputs =
      (run (step loaded) Client.new ((loadingClient drwrap config).taken Hooks.new inputs)).bind
        (eventExit loaded) := by
  have same : config.knowing ((loadingClient drwrap config).informed Hooks.new inputs) =
      { config with
        parallelOmpF :=
          loadModules ((lessons inputs).map fun module => (module.start, module.symbols)) } := by
    show config.knowing ((lessons inputs).foldl Hooks.moduleLoadEvent Hooks.new) = _
    rw [Config.knowing, Hooks.parallelOmpF_informed _ Hooks.sound_new]
    exact congrArg (fun parallelOmpF => { config with parallelOmpF })
      (Hooks.loadModules_functions _).symm
  dsimp only
  rw [← same, loadingFiles,
    Hooks.grows_loadingClient.run_eq (fun sound within => Hooks.step_knowing sound within) inputs
      Client.new Hooks.sound_new, Option.bind_map]
  rfl

/-- Loading late does not matter. When no function is called before its module is loaded, an
application saves the files that it would save with all of its loads in front, or fails as it would
then. A function that several modules have at an address bears the name that was loaded first, and
no callback looks for a name that is not there. -/
theorem eventExit_lateLoads (drwrap : Drwrap) (config : Config)
    {inputs : List (Input Module Trigger)} (loaded : LoadedBeforeCalls inputs) :
    let learner := loadingClient drwrap config
    let known := (learner.informed Hooks.new inputs).parallelOmpF
    loadingFiles drwrap config inputs = loadingFiles drwrap config (lessonsFirst inputs) ∧
      (∀ address, known.lookup address =
        (((lessons inputs).flatMap Hooks.functions).find? fun f => f.2 = address).map Prod.fst) ∧
      ∀ context address, .ompParallel context address ∈ learner.taken Hooks.new inputs →
        (known.lookup address).isSome = true := by
  intro learner known
  refine ⟨?_, fun address => Hooks.lookup_informed (lessons inputs) address,
    fun context address member => ?_⟩
  · rw [loadingFiles, loadingFiles, Hooks.grows_loadingClient.run_lessonsFirst
      (fun sound within => Hooks.step_knowing sound within) Client.new Hooks.sound_new
      (Hooks.settled_of_loadedBeforeCalls Hooks.sound_new loaded)]
  · obtain ⟨later, trigger, sound, within, invoked⟩ :=
      Hooks.grows_loadingClient.exists_of_mem_taken inputs Hooks.sound_new _ member
    obtain ⟨name, held⟩ :=
      Option.isSome_iff_exists.mp (Hooks.isSome_lookup_of_mem_events sound invoked)
    exact Option.isSome_iff_exists.mpr ⟨name, within address name held⟩

/-- An application with a parallel function and the markers of the region of interest. -/
def application : Module where
  start := 0x1000
  symbols := [("main", 0x0), ("main.omp_fn.0", 0x40)]
  lookupSymbol := fun name =>
    if name = "SimRoiStart" then some 0x10 else if name = "SimRoiEnd" then some 0x20 else none
  preferredName := "matrixmul"
  getProcAddress := fun _ => none

/-- The library of its barriers. -/
def gomp : Module where
  start := 0x7000
  symbols := [("GOMP_barrier", 0x80)]
  lookupSymbol := fun _ => none
  preferredName := "libgomp.so.1"
  getProcAddress := fun name => if name = "GOMP_barrier" then some 0x7080 else none

/-- The library is loaded inside the region of interest, in front of the first barrier. -/
def lateGomp : List (Input Module Trigger) :=
  [.trigger (.threadInit 0 7), .learn application, .trigger (.call 0 0x1010),
    .trigger (.call 0 0x1040), .trigger (.cleanCall 0 3 0x1048), .learn gomp,
    .trigger (.call 0 0x7080), .trigger (.call 0 0x1020), .trigger (.threadExit 0)]

theorem eventExit_lateLoads_lateGomp :
    LoadedBeforeCalls lateGomp ∧
      (loadingFiles .lastFirst { parallelOmpF := ∅ } lateGomp).isSome = true ∧
      loadingFiles .lastFirst { parallelOmpF := ∅ } lateGomp =
        loadingFiles .lastFirst { parallelOmpF := ∅ } (lessonsFirst lateGomp) :=
  have loaded : LoadedBeforeCalls lateGomp := by decide +kernel
  ⟨loaded, by decide +kernel, (eventExit_lateLoads .lastFirst { parallelOmpF := ∅ } loaded).1⟩

end Client

end BarrierPoint
