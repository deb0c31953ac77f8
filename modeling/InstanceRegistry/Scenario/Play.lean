import InstanceRegistry.Scenario.Session

/-!
This module contains the program that plays a scenario. Each part of a scenario becomes a program
that ends with what follows it: a description of an instance gives the instance to what follows, and
a step gives whether the body goes on.
-/

namespace InstanceRegistry

namespace Scenario

variable {r : Role}

def allocate (v : Value) (next : Instance → Program player r) : Program player r :=
  .read fun s => .write { s with allocated := s.allocated + 1 } (next ⟨s.allocated, v⟩)

def fetch (x : Name) (next : Instance → Program player r) : Program player r :=
  .read fun s =>
    match s.vars.find? x with
    | some i => next i
    | none => .panic s!"unbound variable '{x}'"

def bind (x : Option Name) (i : Option Instance) (next : Program player r) : Program player r :=
  match x, i with
  | some x, some i => .read fun s => .write { s with vars := s.vars.insert x i } next
  | _, _ => next

def Expr.build : Expr → (Instance → Program player r) → Program player r
  | int n, next => allocate (.int n) next
  | text s, next => allocate (.text s) next
  | unit, next => allocate .unit next
  | holder inner, next => inner.build fun i => allocate (.holder i.id) next
  | var x, next => fetch x next

def Product.give : Product → Program player .factory
  | made inst => inst.build fun i => .done (.ok i)
  | failed e => .done (.error e)

def Flow.factory (flow : Flow) (product : Product) : Program player .factory :=
  match flow with
  | next => product.give
  | abort e => .done (.error e)

-- an early factory cannot fail, and gives its instance even if its body was aborted
def Flow.early (_ : Flow) (product : Expr) : Program player .early :=
  product.build fun i => .done i

def Flow.callback (flow : Flow) (error : Option Failure) : Program player .callback :=
  match flow, error with
  | abort e, _ => .done (.error e.toFailure)
  | next, some f => .done (.error f)
  | next, none => .done (.ok ())

def OnError.handle (onError : OnError) (error : Option CreationError)
    (next : Flow → Program player r) : Program player r :=
  match error, onError with
  | none, _ => next .next
  | some _, ignore => next .next
  | some e, abort => next (.abort e)
  | some e, wrap context => next (.abort (.custom (.context context e.toFailure)))
  | some e, suppress => .call (.suppress e.toFailure) fun _ => next .next

def finish (h : Heading) (reply : Reply) (onError : OnError) (next : Flow → Program player r) :
    Program player r :=
  .note (.finished h.title h.name reply) (onError.handle reply.error? next)

def finishWith (h : Heading) (reply : Reply) (flow : Flow) (next : Flow → Program player r) :
    Program player r :=
  .note (.finished h.title h.name reply) (next flow)

def requests (n : Name) (product : Product) :
    Nat → List (Except RegistryError Instance) →
      (List (Except RegistryError Instance) → Program player r) → Program player r
  | 0, answers, next => next answers.reverse
  | times + 1, answers, next =>
    .getOrCreate n (.read fun s => .write { s with calls := s.calls + 1 } product.give)
      fun answer => requests n product times (answer :: answers) next

mutual

def Command.play (h : Heading) :
    Command → {r : Role} → (Flow → Program player r) → Program player r
  | .perform o onError, _, next =>
    .call o fun a => finish h (.ofAnswer o a) onError next
  | .register n inst onError, _, next =>
    inst.build fun i => .call (.register n i) fun a => finish h (.ofRegistration a) onError next
  | .get n allowEarly x require, _, next =>
    .lookup n allowEarly fun i =>
      bind x i <| finishWith h (.instance i)
        (match i, require with
          | none, some text => .abort (.custom (.plain text))
          | _, _ => .next)
        next
  | .getAs n kind, _, next =>
    .lookup n true fun i => finishWith h (.value (i.bind (·.downcast kind))) .next next
  | .getOrCreate n body product x onError, _, next =>
    .getOrCreate n
      (.note (.entered .factory n) <| playAll body fun flow => .note .left (flow.factory product))
      fun a => bind x a.toOption <| finish h (.ofCreation a) onError next
  | .addEarlyFactory n body product, _, next =>
    .addEarlyFactory n
      (.note (.entered .early n) <| playAll body fun flow => .note .left (flow.early product))
      (finishWith h .ok .next next)
  | .addHandle n body error, _, next =>
    .addHandle n
      (.note (.entered .callback n) <| playAll body fun flow => .note .left (flow.callback error))
      (finishWith h .ok .next next)
  | .destroy n, _, next => .destroy n (finishWith h .ok .next next)
  | .destroyAll, _, next => .destroyAll (finishWith h .ok .next next)
  | .new inst x, _, next =>
    inst.build fun i => bind x (some i) <| finishWith h (.instance (some i)) .next next
  | .same x y, _, next =>
    fetch x fun i => fetch y fun j => finishWith h (.bool (i.same j)) .next next
  | .downcast x kind, _, next =>
    fetch x fun i => finishWith h (.value (i.downcast kind)) .next next
  | .enclose kind body, _, next =>
    .note (.entered kind "") <| playAll body fun flow => .note .left (finishWith h .ok flow next)
  | .attempt body, _, next =>
    .note (.entered .attempt "") <|
      .attempt (playAll body fun flow => .note .left (.done flow)) fun
        | .ok flow => finishWith h .ok flow next
        | .error text => .note .caught (finishWith h (.panicked text) .next next)
  | .race n times product, _, next =>
    .read fun s => .write { s with calls := 0 } <|
      requests n product times [] fun answers =>
        .read fun s => finishWith h (.race s.calls answers) .next next
  | .panic text, _, _ => .panic text

def Step.play : Step → {r : Role} → (Flow → Program player r) → Program player r
  | .mk h command, _, next =>
    .read fun s =>
      .write { s with touched := h.mentions.foldl .insert s.touched } (command.play h next)

def playAll : List Step → {r : Role} → (Flow → Program player r) → Program player r
  | [], _, next => next .next
  | step :: steps, _, next =>
    step.play fun
      | .next => playAll steps next
      | .abort e => next (.abort e)

end

-- outside of bodies neither an abort nor a panic keeps the next step from being played
def playEach : List Step → Program player .block
  | [] => .done .next
  | .mk h command :: steps =>
    .attempt (Step.play (.mk h command) fun flow => .done flow) fun
      | .ok _ => playEach steps
      | .error text =>
        .note .caught <| .note (.finished h.title none (.panicked text)) <| playEach steps

end Scenario

end InstanceRegistry
