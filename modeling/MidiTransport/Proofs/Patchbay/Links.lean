import MidiTransport.Proofs.Patchbay.Side

/-!
# The links of a patchbay

A graph has two sides, one with its sources and one with its sinks. Each function that
changes links changes them on one side and leaves the other side alone. On its own side it
is the operation of `Side` with the same purpose, as long as the links spell lists.
-/

namespace MidiTransport.Patchbay

def Inlet.hook : Inlet → Hook Source
  | .source one => .root one
  | .pipe before => .pipe before

def Outlet.hook : Outlet → Hook Sink
  | .sink one => .root one
  | .pipe before => .pipe before

namespace Graph

variable {graph : Graph} {pipe : Pipe} {source : Source} {sink : Sink} {links : Links}
  {change : Links → Links} {outs : Source → List Pipe} {ins : Sink → List Pipe}

/-- The sources with the chains at the inlets of pipes. -/
def outSide (graph : Graph) : Side Source where
  head := graph.outHead
  next := graph.nextOut
  back pipe := (graph.inlet pipe).map (·.hook)

/-- The sinks with the chains at the outlets of pipes. -/
def inSide (graph : Graph) : Side Sink where
  head := graph.inHead
  next := graph.nextIn
  back pipe := (graph.outlet pipe).map (·.hook)

/-! ## Changes to one link -/

/-- A change at one pipe shows at that pipe only. -/
theorem links?_modifyLinks (graph : Graph) (pipe : Pipe) (change : Links → Links)
    (other : Pipe) :
    (graph.modifyLinks pipe change).links? other =
      if other = pipe then (graph.links? pipe).map change else graph.links? other := by
  unfold links? modifyLinks
  rw [Array.getElem?_modify]
  by_cases same : other = pipe
  · subst same
    simp
  · have apart : pipe.index ≠ other.index := by
      intro equal
      cases other
      cases pipe
      simp_all
    simp [same, apart]

/-- Any part of the links of all pipes, when the links of one pipe change. -/
theorem bind_modifyLinks {Part : Type} (read : Links → Option Part)
    (known : graph.links? pipe = some links) (change : Links → Links) :
    (fun other => ((graph.modifyLinks pipe change).links? other).bind read) =
      Function.update (fun other => (graph.links? other).bind read) pipe (read (change links)) := by
  ext1 other
  rw [links?_modifyLinks]
  by_cases same : other = pipe
  · subst same
    simp [known]
  · simp [same]

/-- A part of the links that a change keeps. -/
theorem bind_of_keeps {Part : Type} {read : Links → Option Part}
    (keeps : ∀ links, read (change links) = read links) (graph : Graph) (pipe : Pipe) :
    (fun other => ((graph.modifyLinks pipe change).links? other).bind read) =
      fun other => (graph.links? other).bind read := by
  ext1 other
  rw [links?_modifyLinks]
  by_cases same : other = pipe
  · subst same
    cases graph.links? other <;> simp [keeps]
  · simp [same]

/-- On the side of the sources, pipes hang by their inlets. -/
theorem outSide_back (graph : Graph) :
    graph.outSide.back =
      fun pipe => (graph.links? pipe).bind fun links => links.inlet.map (·.hook) := by
  ext1 pipe
  exact Option.map_bind

theorem inSide_back (graph : Graph) :
    graph.inSide.back =
      fun pipe => (graph.links? pipe).bind fun links => links.outlet.map (·.hook) := by
  ext1 pipe
  exact Option.map_bind

/-- The side of the sources when the links of a pipe change. -/
theorem outSide_modifyLinks (known : graph.links? pipe = some links) (change : Links → Links) :
    (graph.modifyLinks pipe change).outSide =
      { graph.outSide with
        next := Function.update graph.outSide.next pipe (change links).nextOut
        back := Function.update graph.outSide.back pipe ((change links).inlet.map (·.hook)) } := by
  refine Side.ext rfl (bind_modifyLinks (·.nextOut) known change) ?_
  rw [outSide_back, outSide_back]
  exact bind_modifyLinks _ known change

/-- The side of the sinks when the links of a pipe change. -/
theorem inSide_modifyLinks (known : graph.links? pipe = some links) (change : Links → Links) :
    (graph.modifyLinks pipe change).inSide =
      { graph.inSide with
        next := Function.update graph.inSide.next pipe (change links).nextIn
        back := Function.update graph.inSide.back pipe ((change links).outlet.map (·.hook)) } := by
  refine Side.ext rfl (bind_modifyLinks (·.nextIn) known change) ?_
  rw [inSide_back, inSide_back]
  exact bind_modifyLinks _ known change

/-- A change at the outlet of a pipe. -/
theorem outSide_of_keeps (inlet : ∀ links, (change links).inlet = links.inlet)
    (nextOut : ∀ links, (change links).nextOut = links.nextOut) (graph : Graph) (pipe : Pipe) :
    (graph.modifyLinks pipe change).outSide = graph.outSide := by
  refine Side.ext rfl (bind_of_keeps nextOut graph pipe) ?_
  rw [outSide_back, outSide_back]
  exact bind_of_keeps (by simp [inlet]) graph pipe

/-- A change at the inlet of a pipe. -/
theorem inSide_of_keeps (outlet : ∀ links, (change links).outlet = links.outlet)
    (nextIn : ∀ links, (change links).nextIn = links.nextIn) (graph : Graph) (pipe : Pipe) :
    (graph.modifyLinks pipe change).inSide = graph.inSide := by
  refine Side.ext rfl (bind_of_keeps nextIn graph pipe) ?_
  rw [inSide_back, inSide_back]
  exact bind_of_keeps (by simp [outlet]) graph pipe

/-- A source gets another first pipe. -/
theorem outSide_setOutHead (known : graph.knowsSource source = true) (head : Option Pipe) :
    (graph.setOutHead source head).outSide =
      { graph.outSide with head := Function.update graph.outSide.head source head } := by
  refine Side.ext ?_ rfl rfl
  ext1 other
  have inside : source.index < graph.sources.size := by simpa [knowsSource] using known
  by_cases same : other = source
  · subst same
    simp [outSide, outHead, setOutHead, inside]
  · have apart : source.index ≠ other.index := by
      intro equal
      cases other
      cases source
      simp_all
    simp [outSide, outHead, setOutHead, same, apart]

theorem inSide_setInHead (known : graph.knowsSink sink = true) (head : Option Pipe) :
    (graph.setInHead sink head).inSide =
      { graph.inSide with head := Function.update graph.inSide.head sink head } := by
  refine Side.ext ?_ rfl rfl
  ext1 other
  have inside : sink.index < graph.sinks.size := by simpa [knowsSink] using known
  by_cases same : other = sink
  · subst same
    simp [inSide, inHead, setInHead, inside]
  · have apart : sink.index ≠ other.index := by
      intro equal
      cases other
      cases sink
      simp_all
    simp [inSide, inHead, setInHead, same, apart]

/-! ## Connecting -/

/-- Hang a pipe on something else. -/
theorem outSide_setInlet (known : graph.links? pipe = some links) (place : Inlet) :
    (graph.modifyLinks pipe ({ · with inlet := some place })).outSide =
      { graph.outSide with back := Function.update graph.outSide.back pipe (some place.hook) } := by
  have same : links.nextOut = graph.outSide.next pipe := by simp [outSide, nextOut, known]
  rw [outSide_modifyLinks known]
  simp [same]

theorem inSide_setOutlet (known : graph.links? pipe = some links) (place : Outlet) :
    (graph.modifyLinks pipe ({ · with outlet := some place })).inSide =
      { graph.inSide with back := Function.update graph.inSide.back pipe (some place.hook) } := by
  have same : links.nextIn = graph.inSide.next pipe := by simp [inSide, nextIn, known]
  rw [inSide_modifyLinks known]
  simp [same]

/-- Let another pipe, or none, follow. -/
theorem outSide_setNextOut (known : graph.links? pipe = some links) (next : Option Pipe) :
    (graph.modifyLinks pipe ({ · with nextOut := next })).outSide =
      { graph.outSide with next := Function.update graph.outSide.next pipe next } := by
  have same : links.inlet.map (·.hook) = graph.outSide.back pipe := by
    simp [outSide, inlet, known]
  rw [outSide_modifyLinks known]
  simp [same]

theorem inSide_setNextIn (known : graph.links? pipe = some links) (next : Option Pipe) :
    (graph.modifyLinks pipe ({ · with nextIn := next })).inSide =
      { graph.inSide with next := Function.update graph.inSide.next pipe next } := by
  have same : links.outlet.map (·.hook) = graph.inSide.back pipe := by
    simp [inSide, outlet, known]
  rw [inSide_modifyLinks known]
  simp [same]

@[simp] theorem inSide_setInlet (graph : Graph) (pipe : Pipe) (place : Option Inlet) :
    (graph.modifyLinks pipe ({ · with inlet := place })).inSide = graph.inSide := by
  apply inSide_of_keeps <;> intro links <;> rfl

@[simp] theorem inSide_setNextOut (graph : Graph) (pipe : Pipe) (next : Option Pipe) :
    (graph.modifyLinks pipe ({ · with nextOut := next })).inSide = graph.inSide := by
  apply inSide_of_keeps <;> intro links <;> rfl

@[simp] theorem outSide_setOutlet (graph : Graph) (pipe : Pipe) (place : Option Outlet) :
    (graph.modifyLinks pipe ({ · with outlet := place })).outSide = graph.outSide := by
  apply outSide_of_keeps <;> intro links <;> rfl

@[simp] theorem outSide_setNextIn (graph : Graph) (pipe : Pipe) (next : Option Pipe) :
    (graph.modifyLinks pipe ({ · with nextIn := next })).outSide = graph.outSide := by
  apply outSide_of_keeps <;> intro links <;> rfl

@[simp] theorem inSide_setOutHead (graph : Graph) (source : Source) (head : Option Pipe) :
    (graph.setOutHead source head).inSide = graph.inSide := rfl

@[simp] theorem outSide_setInHead (graph : Graph) (sink : Sink) (head : Option Pipe) :
    (graph.setInHead sink head).outSide = graph.outSide := rfl

/-- A pipe is attached behind the last one of its source. -/
theorem outSide_attachInlet (known : graph.knowsSource source = true)
    (found : graph.links? pipe = some links)
    (linked : ∀ last ∈ graph.outChain source,
      last ≠ pipe ∧ ∃ links, graph.links? last = some links) :
    (graph.attachInlet source pipe).outSide =
      graph.outSide.attach source pipe (graph.outChain source).getLast? := by
  unfold attachInlet
  cases final : (graph.outChain source).getLast? with
  | none =>
    have still : (graph.setOutHead source (some pipe)).links? pipe = some links := found
    dsimp only
    rw [outSide_setInlet still, outSide_setOutHead known]
    rfl
  | some last =>
    obtain ⟨apart, lastLinks, foundLast⟩ := linked last (List.mem_of_getLast? final)
    have still : (graph.modifyLinks last ({ · with nextOut := some pipe })).links? pipe =
        some links := by
      rw [links?_modifyLinks, if_neg apart.symm, found]
    dsimp only
    rw [outSide_setInlet still, outSide_setNextOut foundLast]
    rfl

theorem inSide_attachInlet (graph : Graph) (source : Source) (pipe : Pipe) :
    (graph.attachInlet source pipe).inSide = graph.inSide := by
  unfold attachInlet
  cases (graph.outChain source).getLast? with
  | none => rw [inSide_setInlet, inSide_setOutHead]
  | some last => rw [inSide_setInlet, inSide_setNextOut]

theorem inSide_attachOutlet (known : graph.knowsSink sink = true)
    (found : graph.links? pipe = some links)
    (linked : ∀ last ∈ graph.inChain sink,
      last ≠ pipe ∧ ∃ links, graph.links? last = some links) :
    (graph.attachOutlet pipe sink).inSide =
      graph.inSide.attach sink pipe (graph.inChain sink).getLast? := by
  unfold attachOutlet
  cases final : (graph.inChain sink).getLast? with
  | none =>
    have still : (graph.setInHead sink (some pipe)).links? pipe = some links := found
    dsimp only
    rw [inSide_setOutlet still, inSide_setInHead known]
    rfl
  | some last =>
    obtain ⟨apart, lastLinks, foundLast⟩ := linked last (List.mem_of_getLast? final)
    have still : (graph.modifyLinks last ({ · with nextIn := some pipe })).links? pipe =
        some links := by
      rw [links?_modifyLinks, if_neg apart.symm, found]
    dsimp only
    rw [inSide_setOutlet still, inSide_setNextIn foundLast]
    rfl

theorem outSide_attachOutlet (graph : Graph) (pipe : Pipe) (sink : Sink) :
    (graph.attachOutlet pipe sink).outSide = graph.outSide := by
  unfold attachOutlet
  cases (graph.inChain sink).getLast? with
  | none => rw [outSide_setOutlet, outSide_setInHead]
  | some last => rw [outSide_setOutlet, outSide_setNextIn]

/-! ## Disconnecting -/

@[simp] theorem outSide_releaseOrphans (graph : Graph) :
    graph.releaseOrphans.outSide = graph.outSide :=
  rfl

@[simp] theorem inSide_releaseOrphans (graph : Graph) :
    graph.releaseOrphans.inSide = graph.inSide :=
  rfl

@[simp] theorem outSide_closeOutlet (graph : Graph) (links : Links) :
    (graph.closeOutlet links).outSide = graph.outSide := by
  unfold closeOutlet
  repeat' split
  all_goals simp

@[simp] theorem inSide_closeInlet (graph : Graph) (links : Links) :
    (graph.closeInlet links).inSide = graph.inSide := by
  unfold closeInlet
  repeat' split
  all_goals simp

/-- What a pipe may hang on at its inlet exists. -/
def HasInlet (graph : Graph) : Inlet → Prop
  | .source source => graph.knowsSource source = true
  | .pipe before => ∃ links, graph.links? before = some links

/-- What a pipe may hang on at its outlet exists. -/
def HasOutlet (graph : Graph) : Outlet → Prop
  | .sink sink => graph.knowsSink sink = true
  | .pipe before => ∃ links, graph.links? before = some links

/-- A change at one pipe loses no pipe. -/
theorem exists_links_modifyLinks (other : Pipe)
    (known : ∃ links, graph.links? pipe = some links) :
    ∃ links, (graph.modifyLinks other change).links? pipe = some links := by
  obtain ⟨links, known⟩ := known
  rw [links?_modifyLinks]
  split
  · rename_i same
    subst same
    exact ⟨change links, by simp [known]⟩
  · exact ⟨links, known⟩

/-- Let a pipe, if there is one, hang on this at its inlet. -/
def hangInlet (graph : Graph) (place : Inlet) : Option Pipe → Graph
  | none => graph
  | some pipe => graph.modifyLinks pipe ({ · with inlet := some place })

/-- Let a pipe, if there is one, hang on this at its outlet. -/
def hangOutlet (graph : Graph) (place : Outlet) : Option Pipe → Graph
  | none => graph
  | some pipe => graph.modifyLinks pipe ({ · with outlet := some place })

/-- The first pipe of a chain is hung on something else, if there is one. -/
theorem outSide_hangInlet {head : Option Pipe} (place : Inlet)
    (linked : ∀ pipe, head = some pipe → ∃ links, graph.links? pipe = some links) :
    (graph.hangInlet place head).outSide =
      { graph.outSide with
        back := fun other =>
          if head = some other then some place.hook else graph.outSide.back other } := by
  cases head with
  | none => rfl
  | some pipe =>
    obtain ⟨links, known⟩ := linked pipe rfl
    rw [hangInlet, outSide_setInlet known]
    ext1
    · rfl
    · rfl
    · ext1 other
      simp [Function.update_apply, eq_comm]

theorem inSide_hangOutlet {head : Option Pipe} (place : Outlet)
    (linked : ∀ pipe, head = some pipe → ∃ links, graph.links? pipe = some links) :
    (graph.hangOutlet place head).inSide =
      { graph.inSide with
        back := fun other =>
          if head = some other then some place.hook else graph.inSide.back other } := by
  cases head with
  | none => rfl
  | some pipe =>
    obtain ⟨links, known⟩ := linked pipe rfl
    rw [hangOutlet, inSide_setOutlet known]
    ext1
    · rfl
    · rfl
    · ext1 other
      simp [Function.update_apply, eq_comm]

/-- What a pipe hung on is joined with what followed it, on the side of the sources. -/
theorem outSide_closeInlet {place : Inlet} (hangs : links.inlet = some place)
    (has : graph.HasInlet place)
    (linked : ∀ next, links.nextOut = some next → ∃ links, graph.links? next = some links) :
    (graph.closeInlet links).outSide = graph.outSide.close place.hook links.nextOut := by
  cases place with
  | source source =>
    have closed : graph.closeInlet links =
        (graph.setOutHead source links.nextOut).hangInlet (.source source) links.nextOut := by
      simp only [closeInlet, hangs]
      cases links.nextOut <;> rfl
    have still (next : Pipe) (follows : links.nextOut = some next) :
        ∃ found, (graph.setOutHead source links.nextOut).links? next = some found :=
      linked next follows
    rw [closed, outSide_hangInlet _ still, outSide_setOutHead has]
    ext1 <;> ext1 found <;> simp [Side.close, Function.update_apply, Inlet.hook, eq_comm]
  | pipe before =>
    obtain ⟨found, known⟩ := has
    have closed : graph.closeInlet links =
        (graph.modifyLinks before ({ · with nextOut := links.nextOut })).hangInlet (.pipe before)
          links.nextOut := by
      simp only [closeInlet, hangs]
      cases links.nextOut <;> rfl
    rw [closed, outSide_hangInlet, outSide_setNextOut known]
    · ext1 <;> ext1 found <;> simp [Side.close, Function.update_apply, Inlet.hook, eq_comm]
    · intro next follows
      exact exists_links_modifyLinks _ (linked next follows)

theorem inSide_closeOutlet {place : Outlet} (hangs : links.outlet = some place)
    (has : graph.HasOutlet place)
    (linked : ∀ next, links.nextIn = some next → ∃ links, graph.links? next = some links) :
    (graph.closeOutlet links).inSide = graph.inSide.close place.hook links.nextIn := by
  cases place with
  | sink sink =>
    have closed : graph.closeOutlet links =
        (graph.setInHead sink links.nextIn).hangOutlet (.sink sink) links.nextIn := by
      simp only [closeOutlet, hangs]
      cases links.nextIn <;> rfl
    have still (next : Pipe) (follows : links.nextIn = some next) :
        ∃ found, (graph.setInHead sink links.nextIn).links? next = some found :=
      linked next follows
    rw [closed, inSide_hangOutlet _ still, inSide_setInHead has]
    ext1 <;> ext1 found <;> simp [Side.close, Function.update_apply, Outlet.hook, eq_comm]
  | pipe before =>
    obtain ⟨found, known⟩ := has
    have closed : graph.closeOutlet links =
        (graph.modifyLinks before ({ · with nextIn := links.nextIn })).hangOutlet (.pipe before)
          links.nextIn := by
      simp only [closeOutlet, hangs]
      cases links.nextIn <;> rfl
    rw [closed, inSide_hangOutlet, inSide_setNextIn known]
    · ext1 <;> ext1 found <;> simp [Side.close, Function.update_apply, Outlet.hook, eq_comm]
    · intro next follows
      exact exists_links_modifyLinks _ (linked next follows)

end Graph

end MidiTransport.Patchbay
