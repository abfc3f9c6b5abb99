import IconForge.Compression.Lzma.Finder
import IconForge.Compression.Lzma.Model

set_option autoImplicit false

/-! # Routes

The symbols for the next bytes are chosen as the cheapest route to a place ahead. Routes go on
from place to place; at each one the cheapest route to it goes on with a literal, with repeats and
with the copies that are found there. They also go on with a literal and a repeat at once, and with
these behind a repeat or a copy. The search ends where all routes meet, or in front of a place
with a copy of good length. -/

namespace IconForge.Compression.Lzma

/-- A way to write the bytes up to a place. -/
structure Route where
  position : Nat
  cost : Nat
  history : History
  /-- The symbols, the last one first. -/
  symbols : List Symbol

/-- The cheapest routes from a place to those behind it. -/
structure Routes where
  start : Nat
  best : Array (Option Route)

namespace Routes

/-- The most places that routes lead to. -/
def maxPlaces : Nat :=
  4095

/-- The route to a place. -/
def routeTo (routes : Routes) (position : Nat) : Option Route :=
  routes.best.getD (position - routes.start) none

/-- Take a route. -/
def put (routes : Routes) (route : Route) : Routes :=
  let offset := route.position - routes.start
  let missing := offset + 1 - routes.best.size
  { routes with
    best := (routes.best ++ Array.replicate missing none).setIfInBounds offset (some route) }

/-- Whether a route is cheaper than the one to the same place. -/
def isImprovedBy (routes : Routes) (route : Route) : Bool :=
  match routes.routeTo route.position with
  | none => true
  | some old => route.cost < old.cost

/-- Take a route if it is cheaper. -/
def offer (routes : Routes) (route : Route) : Routes :=
  if routes.isImprovedBy route then routes.put route else routes

/-- Take a route if it is cheaper or as cheap. -/
def offerEqual (routes : Routes) (route : Route) : Routes :=
  match routes.routeTo route.position with
  | none => routes.put route
  | some old => if route.cost ≤ old.cost then routes.put route else routes

/-- Whether the route to a place ends in a repeat at the latest distance. -/
def endsInRepeat (routes : Routes) (position : Nat) : Bool :=
  match routes.routeTo position with
  | some { symbols := .repeated 0 _ :: _, .. } => true
  | _ => false

end Routes

/-- What the choice of a route depends on. -/
structure Chooser where
  content : Array UInt8
  tariff : Tariff

namespace Chooser

/-- A route with one more symbol. -/
def extend (chooser : Chooser) (route : Route) (symbol : Symbol) : Route :=
  { position := route.position + symbol.length
    cost := route.cost + chooser.tariff.cost chooser.content route.position route.history symbol
    history := route.history.after symbol
    symbols := symbol :: route.symbols }

/-- Whether the byte behind a route is the one at the latest distance. -/
def isExpected (chooser : Chooser) (route : Route) : Bool :=
  byteAt chooser.content route.position =
    byteAt chooser.content (route.position - route.history.distance 0 - 1)

/-- Go on with a literal and a repeat behind it. -/
def addResumed (chooser : Chooser) (routes : Routes) (route : Route) (room : Nat) : Routes :=
  let length := agreementBack chooser.content route.position (route.history.distance 0) 1
    (min room (goodLength + 1)) - 1
  if 2 ≤ length then
    routes.offer (chooser.extend (chooser.extend route .literal) (.repeated 0 length))
  else routes

/-- Go on with a repeat of one byte. -/
def addShortRepeat (chooser : Chooser) (first : Bool) (routes : Routes) (route : Route) : Routes :=
  if !chooser.isExpected route then routes
  else if first then routes.offer (chooser.extend route .shortRepeat)
  else if routes.endsInRepeat (route.position + 1) then routes
  else routes.offerEqual (chooser.extend route .shortRepeat)

/-- Go on with symbols of all lengths from one length to another. -/
def addLengths (chooser : Chooser) (route : Route) (symbol : Nat → Symbol) (least most : Nat)
    (routes : Routes) : Routes :=
  (List.range' least (most + 1 - least)).foldl
    (fun routes length => routes.offer (chooser.extend route (symbol length))) routes

/-- How long a repeat can be; none has a single byte. -/
def repeatLength (chooser : Chooser) (route : Route) (index limit : Nat) : Nat :=
  let length := agreementBack chooser.content route.position (route.history.distance index) 0 limit
  if length < 2 then 0 else length

/-- Go on with a repeat. -/
def addRepeat (chooser : Chooser) (first : Bool) (route : Route) (room : Nat) (routes : Routes)
    (index : Nat) : Routes :=
  let length := chooser.repeatLength route index (min room goodLength)
  if length = 0 then routes
  else
    let routes := chooser.addLengths route (.repeated index) 2 length routes
    if first then routes
    else
      chooser.addResumed routes (chooser.extend route (.repeated index length)) (room - length)

/-- Go on with copies, from a length on. Each length is that of the first copy that is as long. -/
def addCopies (chooser : Chooser) (first : Bool) (route : Route) (room : Nat) :
    List Finding → Nat → Routes → Routes
  | [], _, routes => routes
  | finding :: rest, least, routes =>
    if finding.length < least then chooser.addCopies first route room rest least routes
    else
      let routes := chooser.addLengths route (.copied finding.distance) least finding.length routes
      let routes :=
        if first then routes
        else
          chooser.addResumed routes
            (chooser.extend route (.copied finding.distance finding.length))
            (room - finding.length)
      chooser.addCopies first route room rest (finding.length + 1) routes

/-- Copies of no more than a length. -/
def cut (limit : Nat) : List Finding → List Finding
  | [] => []
  | finding :: rest =>
    if finding.length < limit then finding :: cut limit rest else [⟨limit, finding.distance⟩]

/-- Go on from a place with everything that is possible there. -/
def proceed (chooser : Chooser) (first : Bool) (sight : Sight) (routes : Routes) (route : Route) :
    Routes :=
  let room := min (chooser.content.size - route.position)
    (Routes.maxPlaces - (route.position - routes.start))
  let limit := min room goodLength
  let literal := chooser.extend route .literal
  let resumes := !routes.isImprovedBy literal && !chooser.isExpected route
  let routes := chooser.addShortRepeat first (routes.offer literal) route
  if room < 2 then routes
  else
    let routes := if resumes then chooser.addResumed routes route room else routes
    let routes := (List.range 4).foldl (chooser.addRepeat first route room) routes
    let least := max 2 (chooser.repeatLength route 0 limit + 1)
    chooser.addCopies first route room (cut limit sight.findings) least routes

/-! ## Plans -/

/-- Symbols for the next bytes. -/
structure Plan where
  symbols : List Symbol
  finder : Finder
  /-- What is seen behind the symbols, if the finder is there already. -/
  ahead : Option Sight

/-- Search on from a place, through a number of places at most. -/
def search (chooser : Chooser) (route : Route) (finder : Finder) : Nat → Routes → Plan
  | 0, _ => ⟨route.symbols.reverse, finder, none⟩
  | places + 1, routes =>
    if routes.best.size ≤ route.position - routes.start + 1 then
      ⟨route.symbols.reverse, finder, none⟩
    else
      let (sight, finder) := finder.look
      if goodLength ≤ sight.reach then ⟨route.symbols.reverse, finder, some sight⟩
      else
        let routes := chooser.proceed false sight routes route
        match routes.routeTo (route.position + 1) with
        | none => ⟨route.symbols.reverse, finder, none⟩
        | some next => chooser.search next finder places routes

/-- The longest repeat: its index and its length. -/
def longestRepeat (chooser : Chooser) (position : Nat) (history : History) : Nat × Nat :=
  let limit := min maxLength (chooser.content.size - position)
  (List.range 4).foldl (fun best index =>
    let length := agreementBack chooser.content position (history.distance index) 0 limit
    if 2 ≤ length ∧ best.2 < length then (index, length) else best) (0, 0)

/-- Plan the next symbols. A repeat or a copy of good length is taken at once. -/
def plan (chooser : Chooser) (position : Nat) (history : History) (finder : Finder)
    (ahead : Option Sight) : Plan :=
  let (sight, finder) := match ahead with
    | some sight => (sight, finder)
    | none => finder.look
  let (index, length) := chooser.longestRepeat position history
  if chooser.content.size - position < 2 then ⟨[.literal], finder, none⟩
  else if goodLength ≤ length then
    ⟨[.repeated index length], finder.skip (length - 1), none⟩
  else if goodLength ≤ sight.reach then
    let distance := (sight.findings.getLast?.map (·.distance)).getD 0
    ⟨[.copied distance sight.reach], finder.skip (sight.reach - 1), none⟩
  else
    let route : Route := ⟨position, 0, history, []⟩
    let routes := chooser.proceed true sight ⟨position, #[some route]⟩ route
    match routes.routeTo (position + 1) with
    | none => ⟨[.literal], finder, none⟩
    | some next => chooser.search next finder Routes.maxPlaces routes

end Chooser

end IconForge.Compression.Lzma
