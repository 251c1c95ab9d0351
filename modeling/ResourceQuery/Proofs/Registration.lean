/-
Registries built step by step, and registries read from texts.

A registry is built by steps: each records page limits or registers a resource. Limits replace those recorded before,
and a resource replaces one of its name, at the place of that. A text writes limits and a row of resources, in which
names may be repeated as well. What is read of it is what the steps build that record these limits and register these
resources in order.

Results:
- `apply_eq`, `foldl_apply`: what one step changes, and from it what steps in a row change.
- `building_agrees_with_reading`: steps and texts with the same limits and resources give the same registry, which has
  the distinct names in order of first occurrence, each with the metadata of its last resource.
-/
import ResourceQuery.Proofs.AnySpelling

namespace ResourceQuery

open Json

/-! ## Building in steps -/

inductive BuildStep where
  /-- records page limits -/
  | limits (limits : PageLimits)
  | resource (id : ResourceId) (metadata : Metadata)

namespace BuildStep

def apply (r : Registry) : BuildStep → Registry
  | limits l => r.withLimits l
  | resource id metadata => r.register id metadata

def limits? : BuildStep → Option PageLimits
  | limits l => some l
  | resource _ _ => none

def resource? : BuildStep → Option (ResourceId × Metadata)
  | limits _ => none
  | resource id metadata => some (id, metadata)

/-- the limits recorded last, or else the usual ones -/
def lastLimits (steps : List BuildStep) : PageLimits := (steps.filterMap limits?).getLast?.getD {}

/-- the resources that are registered, in order -/
def resources (steps : List BuildStep) : List (ResourceId × Metadata) := steps.filterMap resource?

theorem apply_eq (r : Registry) (step : BuildStep) :
    step.apply r =
      ⟨step.limits?.getD r.limits, step.resource?.toList.foldl (fun m e => m.insert e.1 e.2) r.entries⟩ := by
  cases step <;> rfl

/-- limits are replaced, and resources are inserted one after the other -/
theorem foldl_apply (steps : List BuildStep) (r : Registry) :
    steps.foldl (fun r step => step.apply r) r =
      ⟨(steps.filterMap limits?).getLast?.getD r.limits,
        (resources steps).foldl (fun m e => m.insert e.1 e.2) r.entries⟩ := by
  induction steps generalizing r with
  | nil => rfl
  | cons step steps ih =>
    rw [List.foldl_cons, ih, apply_eq]
    cases step with
    | limits l =>
      have hlast : ((l :: steps.filterMap limits?).getLast?).getD r.limits =
          (steps.filterMap limits?).getLast?.getD l := by
        rw [List.getLast?_cons, Option.getD_some]
      exact congrArg (Registry.mk · _) hlast.symm
    | resource id metadata => rfl

end BuildStep

/-- the registry that steps build -/
def Registry.build (steps : List BuildStep) : Registry := steps.foldl (fun r step => step.apply r) {}

/-- only the last limits and the resources in their order count -/
theorem build_eq_ofList (steps : List BuildStep) :
    Registry.build steps = .ofList (BuildStep.lastLimits steps) (BuildStep.resources steps) := by
  have hlimits := Registry.limits_foldl_register (BuildStep.resources steps)
    { limits := BuildStep.lastLimits steps }
  have hentries := Registry.entries_foldl_register (BuildStep.resources steps)
    { limits := BuildStep.lastLimits steps }
  calc Registry.build steps
      = ⟨BuildStep.lastLimits steps, (BuildStep.resources steps).foldl (fun m e => m.insert e.1 e.2) ∅⟩ :=
        BuildStep.foldl_apply steps {}
    _ = .ofList (BuildStep.lastLimits steps) (BuildStep.resources steps) :=
        congrArg₂ Registry.mk hlimits.symm hentries.symm

/-! ## Main result -/

theorem lookup_eq_find? {κ ν : Type} [DecidableEq κ] (k : κ) (es : List (κ × ν)) :
    OrderedMap.lookup k es = (es.find? fun e => e.1 = k).map Prod.snd := by
  induction es with
  | nil => rfl
  | cons e es ih =>
    rw [OrderedMap.lookup, List.find?_cons]
    by_cases h : e.1 = k <;> simp [h, ih]

/-- **Building and reading.** Steps build the registry that is read from any text that writes the limits recorded last
and the registered resources in order. Its names are the distinct names of these in order of first occurrence, and the
metadata of a name is that registered last. -/
theorem building_agrees_with_reading (steps : List BuildStep) :
    (∀ (t : Tree) (text : String),
      Registry.listSpelling (BuildStep.lastLimits steps) (BuildStep.resources steps) t → t.WrittenAs text →
        Registry.ofText text = .ok (Registry.build steps)) ∧
    (Registry.build steps).limits = BuildStep.lastLimits steps ∧
    (Registry.build steps).ids = ((BuildStep.resources steps).map Prod.fst).eraseDups ∧
    ∀ id, (Registry.build steps).get? id =
      ((BuildStep.resources steps).reverse.find? fun e => e.1 = id).map Prod.snd := by
  have hentries : (Registry.build steps).entries = .ofList (BuildStep.resources steps) := by
    rw [build_eq_ofList, Registry.ofList, Registry.entries_foldl_register]
    rfl
  refine ⟨?_, ?_, ?_, ?_⟩
  · intro t text ht htext
    rw [Registry.ofText, Tree.decodeText_tree htext, decode_of_listSpelling ht, build_eq_ofList]
  · rw [build_eq_ofList]
    exact Registry.limits_foldl_register _ _
  · rw [Registry.ids, hentries, OrderedMap.keys_ofList]
  · intro id
    rw [Registry.get?, hentries, OrderedMap.get?_ofList, lookup_eq_find?]

/-- limits recorded twice, and a name registered again -/
def hubBuildSteps : List BuildStep := [
  .limits { page := 10 },
  .resource ⟨"hub"⟩ { fragment := .leaf "hub", children := [⟨"repos"⟩] },
  .resource ⟨"repos"⟩ { fragment := .leaf "repos" },
  .limits { nested := 5 },
  .resource ⟨"hub"⟩ { fragment := .leaf "hub again" }]

def hubListText : String :=
  "\x7b\"pageLimit\":100,\"nestedPageLimit\":5,\"entries\":\x7b
    \"hub\":\x7b\"variables\":[],\"fragment\":\x7b\"leaf\":\"hub\"\x7d,\"children\":[\"repos\"]\x7d,
    \"repos\":\x7b\"variables\":[],\"fragment\":\x7b\"leaf\":\"repos\"\x7d\x7d,
    \"hub\":\x7b\"variables\":[],\"fragment\":\x7b\"leaf\":\"hub again\"\x7d\x7d\x7d\x7d"

/-- the tree that the printer chooses for the steps -/
def hubListTree : Tree :=
  (Registry.listJson (BuildStep.lastLimits hubBuildSteps) (BuildStep.resources hubBuildSteps)).tree

set_option maxRecDepth 4096 in
theorem hubListText_written : hubListTree.WrittenAs hubListText := by
  have htext : hubListText.toList = _ := String.toList_ofList
  refine ⟨_, [], htext.trans (List.append_nil _).symm, ?_, by decide⟩
  decide +kernel

/-- the last limits count for both, the limit that they leave out being the usual one again -/
theorem hub_built_and_read :
    Registry.listSpelling (BuildStep.lastLimits hubBuildSteps) (BuildStep.resources hubBuildSteps) hubListTree ∧
    hubListTree.WrittenAs hubListText ∧
    Registry.ofText hubListText = .ok (Registry.build hubBuildSteps) ∧
    (Registry.build hubBuildSteps).limits = ⟨100, 5⟩ ∧
    (Registry.build hubBuildSteps).ids = [⟨"hub"⟩, ⟨"repos"⟩] ∧
    (Registry.build hubBuildSteps).get? ⟨"hub"⟩ = some { fragment := .leaf "hub again" } := by
  have hspelling := listSpelling_listJson (BuildStep.lastLimits hubBuildSteps) (BuildStep.resources hubBuildSteps)
  obtain ⟨hread, hlimits, hids, hget⟩ := building_agrees_with_reading hubBuildSteps
  refine ⟨hspelling, hubListText_written, hread hubListTree hubListText hspelling hubListText_written, ?_, ?_, ?_⟩
  · exact hlimits.trans (by decide)
  · exact hids.trans (by decide)
  · exact (hget ⟨"hub"⟩).trans (by decide)

end ResourceQuery
