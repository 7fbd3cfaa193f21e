import Mathlib.Data.List.Sort
import Mathlib.Data.String.Basic
import MatrixRuntime.TextScan

/-! Requirements, the graph they span over the definitions, and the two searches
the reconciler runs on it: a depth-first search for a cycle and Kahn's
topological order. A map from names is the list of its entries; names are
ordered as strings, as the source sorts them. -/

namespace MatrixRuntime.DependencyGraph

open TextScan Function

structure Requirement where
  interface : String
  base : String
  major : Option Nat
  provider : Option String
  deriving DecidableEq, Repr

structure Binding where
  interface : String
  providerLogical : String
  providerInstance : Nat
  providerGeneration : Nat
  deriving DecidableEq, Repr

def splitCap (s : String) : String × Option Nat :=
  let cs := trimChars s.toList
  match rsplitOnce '@' cs with
  | some (before, after) =>
    match parseU64 after with
    | some n => (String.ofList before, some n)
    | none => (String.ofList cs, none)
  | none => (String.ofList cs, none)

def capSatisfies (providedCap : String) (req : Requirement) : Bool :=
  let (base, major) := splitCap providedCap
  if base ≠ req.base then false
  else
    match req.major, major with
    | some want, some got => decide (want = got)
    | some _, none => false
    | none, _ => true

inductive ResolveError where
  | missing (interface : String)
  | ambiguous (interface : String) (providers : List String)
  | versionMismatch (interface provider detail : String)
  | unknownProvider (interface provider : String)
  | providerNotActive (interface provider state : String)
  | cycle (path : List String)
  deriving DecidableEq, Repr

def ResolveError.text : ResolveError → String
  | missing interface => s!"dependency-unavailable: no definition provides {interface}"
  | ambiguous interface providers =>
    let names := ", ".intercalate providers
    s!"ambiguous-provider: {interface} provided by [{names}]; use an explicit binding"
  | versionMismatch interface provider detail =>
    s!"dependency-unavailable: {interface} at {provider} is incompatible ({detail})"
  | unknownProvider interface provider =>
    s!"dependency-unavailable: provider '{provider}' of {interface} is unknown"
  | providerNotActive interface provider state =>
    s!"dependency-unavailable: provider '{provider}' of {interface} is {state}"
  | cycle path =>
    let nodes := " -> ".intercalate path
    s!"cycle: {nodes}"

def sorted (names : List String) : List String := names.insertionSort (· ≤ ·)

def providerCandidates (req : Requirement) (providesOf : List (String × List String)) :
    List String :=
  sorted ((providesOf.filter fun p => p.2.any fun c => capSatisfies c req).map (·.1))

/-- The providers one requirement refers to: the named one, or every candidate. -/
def referenced (req : Requirement) (providesOf : List (String × List String)) : List String :=
  match req.provider with
  | some p => [p]
  | none => providerCandidates req providesOf

abbrev Edges := List (String × List String)

def graphEdges (requiresOf : List (String × List Requirement))
    (providesOf : List (String × List String)) : Edges :=
  let consumers := requiresOf.map fun p =>
    (p.1, (sorted (p.2.flatMap fun r => referenced r providesOf)).dedup)
  let missing := providesOf.filter fun p => decide (p.1 ∉ consumers.map (·.1))
  consumers ++ missing.map fun p => (p.1, [])

def nextsOf (edges : Edges) (node : String) : List String := (edges.lookup node).getD []

inductive Color where
  | white
  | grey
  | black
  deriving DecidableEq, Repr

structure Search where
  color : String → Color
  stack : List String

/-- The closed path from an earlier stack entry back to itself. -/
def Search.closed (s : Search) (node : String) : List String :=
  s.stack.dropWhile (· ≠ node) ++ [node]

/-- The loop of `dfs` over the neighbours, with the recursive visit given. -/
def visitAll (visit : String → Search → Option (List String) × Search) :
    List String → Search → Option (List String) × Search
  | [], s => (none, s)
  | nx :: rest, s =>
    match s.color nx with
    | .grey => (some (s.closed nx), s)
    | .white =>
      match visit nx s with
      | (some cyc, s') => (some cyc, s')
      | (none, s') => visitAll visit rest s'
    | .black => visitAll visit rest s

/-- Every call colours a white node grey, so a recursion as deep as there are nodes is
enough. -/
def dfs (edges : Edges) : Nat → String → Search → Option (List String) × Search
  | 0, _, s => (none, s)
  | fuel + 1, node, s =>
    let entered : Search := ⟨update s.color node .grey, s.stack ++ [node]⟩
    match visitAll (dfs edges fuel) (nextsOf edges node) entered with
    | (some cyc, s') => (some cyc, s')
    | (none, s') => (none, ⟨update s'.color node .black, s'.stack.dropLast⟩)

def nodesOf (edges : Edges) : List String :=
  (edges.map (·.1) ++ edges.flatMap (·.2)).dedup

/-- The outer loop of `find_cycle`: start from every node still white. -/
def searchFrom (edges : Edges) (fuel : Nat) : List String → Search → Option (List String)
  | [], _ => none
  | n :: rest, s =>
    if s.color n = .white then
      match dfs edges fuel n s with
      | (some cyc, _) => some cyc
      | (none, s') => searchFrom edges fuel rest s'
    else searchFrom edges fuel rest s

def findCycle (edges : Edges) : Option (List String) :=
  searchFrom edges ((nodesOf edges).length + 1) (sorted (edges.map (·.1))) ⟨fun _ => .white, []⟩

/-- The consumers of `n`, once for each edge to it. -/
def consumersOf (edges : Edges) (n : String) : List String :=
  edges.flatMap fun p => (p.2.filter fun d => decide (d = n)).map fun _ => p.1

structure Kahn where
  indeg : String → Nat
  ready : List String
  order : List String

/-- One consumer loses a dependency and is ready when it was the last. -/
def Kahn.relax (k : Kahn) (c : String) : Kahn :=
  let left := k.indeg c - 1
  { k with
    indeg := update k.indeg c left
    ready := if left = 0 then k.ready ++ [c] else k.ready }

/-- Take the smallest ready node, which the source keeps at the end of a reversed list. -/
def Kahn.step (edges : Edges) (k : Kahn) : Kahn :=
  match k.ready with
  | [] => k
  | n :: rest =>
    let popped : Kahn := { k with ready := rest, order := k.order ++ [n] }
    let relaxed := (sorted (consumersOf edges n)).foldl Kahn.relax popped
    { relaxed with ready := sorted relaxed.ready }

def Kahn.start (edges : Edges) : Kahn where
  indeg n := (nextsOf edges n).length
  ready := sorted ((nodesOf edges).filter fun n => decide ((nextsOf edges n).length = 0))
  order := []

/-- Every step places one node, so as many steps as nodes leave none ready. -/
def topoOrder (edges : Edges) : Option (List String) :=
  let nodes := nodesOf edges
  let last := (Kahn.step edges)^[nodes.length] (Kahn.start edges)
  if last.order.length = nodes.length then some last.order else none

end MatrixRuntime.DependencyGraph
