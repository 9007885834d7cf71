import Bindery.Binding.Plan
import Bindery.Proofs.Model.Composition

/-! A binding is worked out by asking the resolver. What is true of all questions to the resolver, and
passes from questions to what is put together from them, is true of every stage of a binding. -/

set_option autoImplicit false

namespace Bindery.Query.Resolving

open Ast (TranslationUnit)
open Binding (Closure Frontier Plan Policy)
open Project (EmitConfig)

variable {u : TranslationUnit} {P : (α : Type) → Query α → Prop} (resolving : Resolving u P)

include resolving

theorem detectCasters (p : Policy) : P _ (p.detectCasters u) := by
  refine resolving.bind resolving.model fun n => ?_
  split
  · exact resolving.pure _
  · refine resolving.bind (resolving.foldlM (fun p specialization => ?_) _ _) fun _ =>
      resolving.pure _
    refine resolving.bind resolving.model fun n => ?_
    split
    · exact resolving.pure _
    · refine resolving.bind (resolving.type _) fun target => ?_
      split <;> exact resolving.pure _

/-! ## Closures -/

theorem findVeto (p : Policy) (id : NodeId) : P _ (Frontier.findVeto u p id) := by
  refine resolving.bind resolving.model fun n => ?_
  split
  · exact resolving.pure _
  · split
    · exact resolving.pure _
    · split
      · exact resolving.bind (resolving.unresolvedBases id) fun _ => resolving.pure _
      · exact resolving.pure _

theorem refuses (p : Policy) (f : Frontier) (id : NodeId) : P _ (f.refuses u p id) := by
  unfold Frontier.refuses
  split
  · exact resolving.pure _
  · refine resolving.bind (resolving.findVeto p id) fun veto => ?_
    split <;> exact resolving.pure _

theorem enqueue (p : Policy) (f : Frontier) (id : NodeId) : P _ (f.enqueue u p id) := by
  refine resolving.bind resolving.model fun n => ?_
  split
  · exact resolving.pure _
  · exact resolving.bind (resolving.refuses p f id) fun _ => resolving.pure _

theorem enqueueNeeds (p : Policy) (f : Frontier) (id : NodeId) : P _ (f.enqueueNeeds u p id) :=
  resolving.bind (resolving.needs id) fun _ => resolving.foldlM (resolving.enqueue p) _ _

theorem visit (p : Policy) (f : Frontier) (id : NodeId) : P _ (f.visit u p id) := by
  refine resolving.bind (resolving.refuses p f id) fun refused => ?_
  dsimp only
  split
  · exact resolving.pure _
  · refine resolving.bind (resolving.enqueueNeeds p _ id) fun g =>
      resolving.bind resolving.model fun n => ?_
    split
    · exact resolving.bind resolving.model fun _ =>
        resolving.bind (resolving.foldlM (resolving.enqueue p) _ _) fun _ =>
          resolving.foldlM (resolving.enqueueNeeds p) _ _
    · exact resolving.pure _

theorem run (p : Policy) (bound : Nat) (f : Frontier) : P _ (Frontier.run u p bound f) := by
  induction bound generalizing f with
  | zero => exact resolving.pure _
  | succ bound ih =>
    unfold Frontier.run
    split
    · exact resolving.pure _
    · exact resolving.bind (resolving.visit p _ _) ih

theorem closure (p : Policy) (roots : List NodeId) : P _ (Binding.closure u p roots) :=
  resolving.bind resolving.model fun _ => resolving.run p _ _

theorem order (c : Closure) : P _ (Binding.order u c) :=
  resolving.bind
    (resolving.mapM (fun id => resolving.bind (resolving.needs id) fun _ => resolving.pure _) _)
    fun _ => resolving.bind resolving.model fun _ => resolving.pure _

/-! ## Plans -/

theorem planMember (p : Policy) (bound : List NodeId) (id : NodeId) :
    P _ (Plan.planMember u p bound id) :=
  resolving.bind (resolving.needs id) fun _ => resolving.bind resolving.model fun _ =>
    resolving.pure _

theorem planRecord (p : Policy) (emit : EmitConfig) (bound : List NodeId) (id : NodeId) :
    P _ (Plan.planRecord u p emit bound id) :=
  resolving.bind (resolving.baseRecords id) fun _ => resolving.bind resolving.model fun _ =>
    resolving.bind (resolving.mapM (resolving.planMember p bound) _) fun _ =>
      resolving.bind (resolving.mapM (resolving.planMember p bound) _) fun _ =>
        resolving.bind (resolving.mapM (resolving.planMember p bound) _) fun _ => resolving.pure _

theorem planEntry (p : Policy) (emit : EmitConfig) (bound : List NodeId) (id : NodeId) :
    P _ (Plan.planEntry u p emit bound id) := by
  have item : P _ (Plan.planItem u p emit bound id) := by
    refine resolving.bind resolving.model fun n => ?_
    split
    · exact resolving.bind (resolving.planRecord p emit bound id) fun _ => resolving.pure _
    · exact resolving.pure _
    · exact resolving.bind (resolving.planMember p bound id) fun _ => resolving.pure _
    · exact resolving.pure _
  refine resolving.bind item fun found => ?_
  split
  · exact resolving.pure _
  · exact resolving.bind (resolving.needs id) fun _ => resolving.bind resolving.model fun _ =>
      resolving.pure _

theorem ofOrder (p : Policy) (emit : EmitConfig) (sorted : List NodeId) :
    P _ (Plan.ofOrder u p emit sorted) :=
  resolving.bind resolving.model fun _ =>
    resolving.bind (resolving.mapM (resolving.planEntry p emit _) _) fun _ => resolving.pure _

theorem ofRoots (p : Policy) (emit : EmitConfig) (roots : List NodeId) :
    P _ (Plan.ofRoots u p emit roots) := by
  refine resolving.bind (resolving.closure p roots) fun found =>
    resolving.bind (resolving.order found) fun sorted => ?_
  cases sorted with
  | error cyclic => exact resolving.pure _
  | ok sorted => exact resolving.bind (resolving.ofOrder p emit sorted) fun _ => resolving.pure _

end Bindery.Query.Resolving
