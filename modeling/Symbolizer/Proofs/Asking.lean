import Symbolizer.Proofs.Resolving

/-! # What resolving asks

A computation puts its questions in the order of its steps, and the step that stops it
puts the last one. For an address each question is fed by the answers to those before it;
for a name there are two at most.
-/

namespace Symbolizer

namespace Traced

variable {ε α β : Type}

/-- The questions that a computation puts, whatever was asked and reported before. -/
def Asks (computation : Traced ε α) (calls : List Call) : Prop :=
  ∀ trace, ((computation.run).run trace).2.calls = trace.calls ++ calls

namespace Asks

theorem start {computation : Traced ε α} {calls : List Call} (h : computation.Asks calls) :
    computation.start.2.calls = calls := h .empty

theorem pure (a : α) : Asks (pure a : Traced ε α) [] := by
  intro trace
  exact (List.append_nil _).symm

theorem throw (e : ε) : Asks (throw e : Traced ε α) [] := by
  intro trace
  exact (List.append_nil _).symm

theorem tell (message : Message) : Asks (tell message : Traced ε Unit) [] := by
  intro trace
  exact (List.append_nil _).symm

theorem ask (call : Call) (lookup : Lookup α) :
    Asks (ask call lookup : Traced ε (Except LookupError α)) [call] := by
  intro trace
  rfl

theorem bind_ok {first : Traced ε α} {next : α → Traced ε β} {a : α} {calls more : List Call}
    (h : first.Yields (.ok a)) (hcalls : first.Asks calls) (hnext : (next a).Asks more) :
    (first >>= next).Asks (calls ++ more) := by
  intro trace
  rw [run_bind_of_ok (h trace), hnext, hcalls, List.append_assoc]

theorem bind_error {first : Traced ε α} {next : α → Traced ε β} {e : ε} {calls : List Call}
    (h : first.Yields (.error e)) (hcalls : first.Asks calls) :
    (first >>= next).Asks calls := by
  intro trace
  rw [run_bind_of_error (h trace)]
  exact hcalls trace

/-- Reporting asks nothing. -/
theorem tell_bind {message : Message} {next : Traced ε β} {calls : List Call}
    (h : next.Asks calls) : (Traced.tell message >>= fun _ => next).Asks calls :=
  bind_ok (Yields.tell message) (tell message) h

end Asks

end Traced

/-- The questions that follow an answer; none follow an error. -/
def Call.following {ε α : Type} : Except ε α → (α → List Call) → List Call
  | .ok a, next => next a
  | .error _, _ => []

theorem Call.following_nil {ε α : Type} (answer : Except ε α) :
    following answer (fun _ => []) = [] := by
  cases answer <;> rfl

namespace Engine

open Traced

variable (engine : Engine)

/-- What is asked for an address that the resolver does not refuse, told from the answers of the
engine alone. -/
def questions (address : Address) : List Call :=
  let site := callSite address
  .unit address :: Call.following (engine.unitForAddress address).answer fun unit =>
    .file unit :: Call.following (engine.fileForUnit unit).answer fun file =>
      .line site file.lineProgram ::
        Call.following (engine.lineForAddress site file.lineProgram).answer fun _ =>
          [.function site unit]

theorem step_asks {α : Type} (address : Address) (which : Step) (location : Location)
    (call : Call) (lookup : Lookup α) :
    (step address which location call lookup).Asks [call] := by
  apply Asks.bind_ok (Yields.ask call lookup) (Asks.ask call lookup)
  cases lookup.answer with
  | ok a => exact Asks.pure a
  | error e => exact Asks.tell_bind (Asks.throw _)

/-- What follows a step is asked if the step has an answer. -/
theorem step_bind_asks {α β : Type} {address : Address} {which : Step} {location : Location}
    {call : Call} {lookup : Lookup α} {next : α → Traced Stopped β} {more : α → List Call}
    (hnext : ∀ a, (next a).Asks (more a)) :
    (step address which location call lookup >>= next).Asks
      (call :: Call.following lookup.answer more) := by
  have hyields := step_yields address which location call lookup
  have hasks := step_asks address which location call lookup
  cases hanswer : lookup.answer with
  | ok a =>
      rw [hanswer] at hyields
      exact Asks.bind_ok hyields hasks (hnext a)
  | error e =>
      rw [hanswer] at hyields
      exact Asks.bind_error hyields hasks

theorem resolveAddress_asks_questions {config : Config} {address : Address} (hzero : address ≠ 0)
    (hkernel : config.kernelStart ≤ address) (out : Location) :
    (engine.resolveAddress config address out).Asks (engine.questions address) := by
  have hrefuse : ¬address < config.kernelStart := UInt64.not_lt.mpr hkernel
  rw [resolveAddress, questions]
  simp only [hzero, hrefuse, if_false]
  refine step_bind_asks fun unit => step_bind_asks fun file => step_bind_asks fun line => ?_
  rw [← Call.following_nil (engine.functionForAddress (callSite address) unit).answer]
  apply step_bind_asks
  intro function
  split
  · exact Asks.tell_bind (Asks.pure _)
  · exact Asks.pure _

/-- The debug entries are asked where the index does not know the name. -/
theorem resolveName_asks_scan {engine : Engine} {name : Bytes}
    (h : (engine.addressByIndex name).answer = .error .notFound) (symbols : SymbolTable) :
    (engine.resolveName symbols name).Asks [.index name, .scan name] := by
  apply Asks.bind_ok (Yields.ask _ _) (Asks.ask _ _)
  rw [h]
  apply Asks.tell_bind
  apply Asks.bind_ok (Yields.ask _ _) (Asks.ask _ _)
  cases (engine.addressByScan name).answer with
  | ok address => exact Asks.pure _
  | error error =>
      cases error with
      | notFound =>
          apply Asks.tell_bind
          cases symbols.find? name with
          | some address => exact Asks.pure _
          | none => exact Asks.tell_bind (Asks.pure _)
      | _ => exact Asks.bind_error (Yields.throw _) (Asks.throw _)

/-- Any other answer of the index is the last one. -/
theorem resolveName_asks_index {engine : Engine} {name : Bytes}
    (h : (engine.addressByIndex name).answer ≠ .error .notFound) (symbols : SymbolTable) :
    (engine.resolveName symbols name).Asks [.index name] := by
  apply Asks.bind_ok (Yields.ask _ _) (Asks.ask _ _)
  cases hanswer : (engine.addressByIndex name).answer with
  | ok address => exact Asks.pure _
  | error error =>
      cases error with
      | notFound => exact absurd hanswer h
      | _ => exact Asks.bind_error (Yields.throw _) (Asks.throw _)

end Engine

end Symbolizer
