import ResidualHarness.Core.Task
import ResidualHarness.Graph.Components
import Mathlib.Data.Prod.Lex

/-!
# Finite constraint models

The models of `residual/cic.py`: finite domains with binary constraints and sums, their validation,
the check of an assignment, the interaction graph with its elimination orders, and the bounded
search. The code keeps models as JSON; `validateModel` reads one into a `Model`.
-/

set_option autoImplicit false

namespace ResidualHarness.Cic

open Python Core

/-! ## Models -/

/-- A rule of `sums`. -/
structure SumRule where
  keys : List Str
  equals : Int
deriving DecidableEq

/-- A structural model. -/
structure Model where
  domains : Dict Str (List Int)
  different : List (Str × Str)
  lessThan : List (Str × Str)
  sums : List SumRule
deriving DecidableEq

/-- `domains[k]`. -/
def Model.domain (m : Model) (k : Str) : List Int := (m.domains.get? k).getD []

/-- The scopes of the constraints. -/
def Model.scopes (m : Model) : List (List Str) :=
  (m.different ++ m.lessThan).map (fun r => [r.1, r.2]) ++ m.sums.map SumRule.keys

variable [FloatModel]

/-! ## Validation -/

/-- The checks on the values of a domain. -/
def checkDomain (key : Str) (values : List Int) : Except PyExn Unit := do
  identifier key
  require ((1 ≤ values.length ∧ values.length ≤ 64) ∧ (∀ v ∈ values, v.natAbs ≤ 10 ^ 6) ∧
    values.Nodup) (contractError "invalid structural domain")

/-- The checks on a binary rule. -/
def checkPair (domains : List Str) (rule : Str × Str) : Except PyExn Unit :=
  require (rule.1 ∈ domains ∧ rule.2 ∈ domains)
    (contractError "invalid structural constraint scope")

/-- The checks on a sum. -/
def checkSum (domains : List Str) (rule : SumRule) : Except PyExn Unit := do
  require (rule.equals.natAbs ≤ 32 * 10 ^ 6) (contractError "invalid structural sum")
  require ((1 ≤ rule.keys.length ∧ rule.keys.length ≤ 32) ∧ rule.keys ⊆ domains ∧ rule.keys.Nodup)
    (contractError "invalid structural constraint scope")

/-- The bound on the number of constraints so far. -/
def checkCount (count : Nat) : Except PyExn Unit :=
  require (count ≤ 128) (contractError "too many structural constraints")

/-- `validate_model(model)` on a model that has been read. -/
def Model.validate (m : Model) : Except PyExn Unit := do
  require (1 ≤ m.domains.length ∧ m.domains.length ≤ 32)
    (contractError "structural model requires 1..32 variables")
  let _ ← mapE (fun d : Str × List Int => checkDomain d.1 d.2) m.domains
  checkCount m.different.length
  let _ ← mapE (checkPair m.domains.keys) m.different
  checkCount (m.different.length + m.lessThan.length)
  let _ ← mapE (checkPair m.domains.keys) m.lessThan
  checkCount (m.different.length + m.lessThan.length + m.sums.length)
  let _ ← mapE (checkSum m.domains.keys) m.sums
  return ()

/-- An `int` that is no `bool`. -/
def asInt : Json → Option Int
  | .int i => some i
  | _ => none

/-- A string. -/
def asStr : Json → Option Str
  | .str s => some s
  | _ => none

/-- A domain of the model. -/
def readDomain (d : Str × Json) : Except PyExn (Str × List Int) := do
  identifier d.1
  match d.2 with
  | .arr values =>
      match values.mapM asInt with
      | some ints => do
          checkDomain d.1 ints
          return (d.1, ints)
      | none => throw (contractError "invalid structural domain")
  | _ => throw (contractError "invalid structural domain")

/-- A rule of `different` or `less_than`. -/
def readPair (domains : List Str) (rule : Json) : Except PyExn (Str × Str) :=
  match rule with
  | .arr [.str a, .str b] => do
      checkPair domains (a, b)
      return (a, b)
  | _ => .error (contractError "invalid structural constraint scope")

/-- A rule of `sums`. -/
def readSum (domains : List Str) (rule : Json) : Except PyExn SumRule :=
  match rule with
  | .obj d => do
      require ((d.map Prod.fst).toFinset = {lit "keys", lit "equals"})
        (contractError "invalid structural sum")
      match asInt (← Fields.get d (lit "equals")) with
      | none => throw (contractError "invalid structural sum")
      | some equals => do
          require (equals.natAbs ≤ 32 * 10 ^ 6) (contractError "invalid structural sum")
          match ← Fields.get d (lit "keys") with
          | .arr keys =>
              match keys.mapM asStr with
              | some keys => do
                  checkSum domains ⟨keys, equals⟩
                  return ⟨keys, equals⟩
              | none => throw (contractError "invalid structural constraint scope")
          | _ => throw (contractError "invalid structural constraint scope")
  | _ => .error (contractError "invalid structural sum")

/-- The rules of a kind, with the number of rules before. -/
def readRules {α : Type} (model : Fields) (kind : String) (count : Nat)
    (read : Json → Except PyExn α) : Except PyExn (List α) := do
  match (model.get? (lit kind)).getD (.arr []) with
  | .arr rules => do
      checkCount (count + rules.length)
      mapE read rules
  | _ => throw (contractError "invalid structural constraints")

/-- `validate_model(model)`. -/
def validateModel (model : Json) : Except PyExn Model :=
  match model with
  | .obj fields => do
      require (∀ kv ∈ fields, kv.1 ∈
          [lit "domains", lit "different", lit "less_than", lit "sums"])
        (contractError "unsupported structural model")
      match Fields.get? fields (lit "domains") with
      | some (.obj ds) => do
          require (1 ≤ ds.length ∧ ds.length ≤ 32)
            (contractError "structural model requires 1..32 variables")
          let domains ← mapE readDomain ds
          let names := ds.map Prod.fst
          let different ← readRules fields "different" 0 (readPair names)
          let lessThan ← readRules fields "less_than" different.length (readPair names)
          let sums ← readRules fields "sums" (different.length + lessThan.length) (readSum names)
          return ⟨domains, different, lessThan, sums⟩
      | _ => throw (contractError "structural model requires 1..32 variables")
  | _ => .error (contractError "unsupported structural model")

/-! ## Assignments -/

/-- The bounds of a sum: the assigned values, and the least and the greatest of the others. -/
def sumBounds (m : Model) (values : Dict Str Int) (keys : List Str) : Int × Int :=
  ((keys.map fun k => (values.get? k).getD ((m.domain k).min?.getD 0)).sum,
    (keys.map fun k => (values.get? k).getD ((m.domain k).max?.getD 0)).sum)

/-- A binary constraint holds, or one of its variables has no value. -/
def pairHolds (rel : Int → Int → Bool) (values : Dict Str Int) (rule : Str × Str) : Bool :=
  match values.get? rule.1, values.get? rule.2 with
  | some a, some b => rel a b
  | _, _ => true

/-- `consistent(model, values, complete)` on integer values. -/
def consistent (m : Model) (values : Dict Str Int) (complete : Bool) : Bool :=
  decide (values.keys ⊆ m.domains.keys) &&
    (!complete || decide (m.domains.keys ⊆ values.keys)) &&
    (values.all fun kv => decide (kv.2 ∈ m.domain kv.1)) &&
    m.different.all (pairHolds (fun a b => decide (a ≠ b)) values) &&
    m.lessThan.all (pairHolds (fun a b => decide (a < b)) values) &&
    m.sums.all fun r => decide ((sumBounds m values r.keys).1 ≤ r.equals ∧
      r.equals ≤ (sumBounds m values r.keys).2)

/-- The integer items of a dictionary, if all are. -/
def intItems (d : Fields) : Option (Dict Str Int) :=
  d.mapM fun kv => (asInt kv.2).map fun i => (kv.1, i)

/-- `consistent(model, value, complete=True)` on a dictionary. -/
def consistentValue (m : Model) (value : Fields) : Bool :=
  match intItems value with
  | some values => consistent m values true
  | none => false

/-! ## The interaction graph -/

/-- Neighbours of every node. -/
abbrev NodeGraph := Dict Str (List Str)

/-- `combinations(xs, 2)`. -/
def pairs {α : Type} : List α → List (α × α)
  | [] => []
  | x :: xs => xs.map (fun y => (x, y)) ++ pairs xs

/-- `graph[n]`. -/
def NodeGraph.adj (g : NodeGraph) (n : Str) : List Str := (g.get? n).getD []

/-- `graph[a].add(b); graph[b].add(a)`. -/
def NodeGraph.addEdge (g : NodeGraph) (e : Str × Str) : NodeGraph :=
  g.map fun kv => (kv.1,
    if kv.1 = e.1 then kv.2.insert e.2 else if kv.1 = e.2 then kv.2.insert e.1 else kv.2)

/-- `interaction_graph(model)` of a valid model. -/
def interactionGraph (m : Model) : NodeGraph :=
  (m.scopes.flatMap fun scope => pairs (sortedSet scope)).foldl NodeGraph.addEdge
    (m.domains.map fun d => (d.1, []))

/-- `components(graph)`. -/
def components (g : NodeGraph) : Except PyExn (List (List Str)) :=
  match Graph.components g.adj g.keys with
  | some groups => .ok groups
  | none => .error (.runtimeError "fuel" "unreachable")

/-! ## Elimination orders -/

/-- `_graph_copy(graph)`. -/
def NodeGraph.check (g : NodeGraph) : Except PyExn Unit := do
  require (g.length ≤ 32) (contractError "invalid structural graph")
  require (∀ kv ∈ g, kv.1 ∉ kv.2 ∧ kv.2 ⊆ g.keys ∧ ∀ n ∈ kv.2, kv.1 ∈ g.adj n)
    (contractError "graph must be undirected without self edges")

/-- A step of an elimination. -/
structure EliminationStep where
  node : Str
  neighbors : List Str
  fillEdges : List (Str × Str)
deriving DecidableEq

/-- The edges that an elimination of the node adds. -/
def NodeGraph.fill (g : NodeGraph) (node : Str) : List (Str × Str) :=
  (pairs (sortedSet (g.adj node))).filter fun e => e.2 ∉ g.adj e.1

/-- `_eliminate(graph, node)`. -/
def NodeGraph.eliminate (g : NodeGraph) (node : Str) : NodeGraph × EliminationStep :=
  let neighbors := sortedSet (g.adj node)
  let filled := (g.fill node).foldl NodeGraph.addEdge g
  ((filled.pop node).map fun kv => (kv.1, if kv.1 ∈ neighbors then kv.2.erase node else kv.2),
    ⟨node, neighbors, g.fill node⟩)

/-- The steps of an elimination order. -/
def eliminationSteps : NodeGraph → List Str → List EliminationStep
  | _, [] => []
  | g, node :: rest => (g.eliminate node).2 :: eliminationSteps (g.eliminate node).1 rest

/-- An elimination certificate. -/
structure Certificate where
  ordering : List Str
  widthUpperBound : Nat
  steps : List EliminationStep
deriving DecidableEq

/-- `elimination_certificate(graph, ordering)`. -/
def eliminationCertificate (g : NodeGraph) (ordering : List Str) : Except PyExn Certificate := do
  g.check
  require (ordering.length = g.length ∧ ordering ⊆ g.keys ∧ g.keys ⊆ ordering)
    (contractError "elimination order must be an exact permutation")
  let steps := eliminationSteps g ordering
  return ⟨ordering, (steps.map fun s => s.neighbors.length).foldl max 0, steps⟩

/-- The score of a node: added edges, degree and name. -/
def NodeGraph.score (g : NodeGraph) (n : Str) : Nat ×ₗ Nat ×ₗ Str :=
  toLex ((g.fill n).length, toLex ((g.adj n).length, n))

/-- `min(graph, key=score)`. -/
def NodeGraph.least (g : NodeGraph) (n : Str) (ns : List Str) : Str :=
  ns.foldl (fun best k => if g.score k < g.score best then k else best) n

/-- The loop of `min_fill`, one node an iteration. -/
def minFillOrder : Nat → NodeGraph → List Str
  | 0, _ => []
  | n + 1, g =>
      match g.keys with
      | [] => []
      | k :: ks =>
          let node := g.least k ks
          node :: minFillOrder n (g.eliminate node).1

/-- `min_fill(graph)`. -/
def minFill (g : NodeGraph) : Except PyExn Certificate := do
  g.check
  eliminationCertificate g (minFillOrder g.length g)

/-- A certificate as JSON. -/
def Certificate.asDict (c : Certificate) : Json :=
  .obj [(lit "ordering", strings c.ordering), (lit "width_upper_bound", .int c.widthUpperBound),
    (lit "steps", .arr (c.steps.map fun s => .obj [(lit "node", .str s.node),
      (lit "neighbors", strings s.neighbors),
      (lit "fill_edges", .arr (s.fillEdges.map fun e => strings [e.1, e.2]))]))]

/-! ## Search -/

/-- What a search has found, and the nodes it has visited. -/
structure Search where
  answer : Option (Dict Str Int)
  nodes : Nat
  exhausted : Bool

/-- The loop over the values of one variable; `next` searches the variables after it. -/
def searchValues (m : Model) (maxNodes : Nat) (key : Str) (next : Dict Str Int → Nat → Search)
    (values : Dict Str Int) : List Int → Nat → Search
  | [], nodes => ⟨none, nodes, false⟩
  | v :: vs, nodes =>
      if maxNodes ≤ nodes then ⟨none, nodes, true⟩
      else if consistent m (values.set key v) false then
        let r := next (values.set key v) (nodes + 1)
        if r.answer.isSome ∨ r.exhausted = true then r
        else searchValues m maxNodes key next values vs r.nodes
      else searchValues m maxNodes key next values vs (nodes + 1)

/-- `search(values, depth)`, with the variables from this depth on. -/
def search (m : Model) (maxNodes : Nat) : List Str → Dict Str Int → Nat → Search
  | [], values, nodes => ⟨some values, nodes, false⟩
  | key :: order, values, nodes =>
      searchValues m maxNodes key (search m maxNodes order) values (m.domain key) nodes

/-- The statuses of a search. -/
inductive SearchStatus where
  | sat
  | unsat
  | unknown
deriving DecidableEq, Repr

/-- The text of a search status. -/
def SearchStatus.text : SearchStatus → Str
  | .sat => lit "SAT"
  | .unsat => lit "UNSAT"
  | .unknown => lit "UNKNOWN"

/-- `SearchResult`. -/
structure SearchResult where
  status : SearchStatus
  assignment : Option (Dict Str Int)
  nodes : Nat

/-- `feasibility(model, ordering, max_nodes)`. -/
def feasibility (m : Model) (ordering : List Str) (maxNodes : Int) : Except PyExn SearchResult := do
  m.validate
  let _ ← eliminationCertificate (interactionGraph m) ordering
  require (0 ≤ maxNodes ∧ maxNodes ≤ 1000000) (contractError "invalid feasibility budget")
  let r := search m maxNodes.toNat ordering.reverse [] 0
  return ⟨if r.answer.isSome then .sat else if r.exhausted then .unknown else .unsat, r.answer,
    r.nodes⟩

/-- `_restricted(model, members)`. -/
def Model.restricted (m : Model) (members : List Str) : Model where
  domains := m.domains.filter fun d => d.1 ∈ members
  different := m.different.filter fun r => r.1 ∈ members
  lessThan := m.lessThan.filter fun r => r.1 ∈ members
  sums := m.sums.filter fun r => r.keys.headD [] ∈ members

end ResidualHarness.Cic
