import Permesh.Github.Protocol
import Permesh.Lib.Firsts
import Permesh.Lib.Fold

/-!
# Laws.Github.Organizations — the organizations of a configuration

The constructor sorts the organizations by their lower case names and keeps one of each name, however
it is written. It is the one that comes first in the configuration.

Sorting is stable, so that the first of a run of equal names is the first of the configuration; all
else follows from `Firsts`. Whether the names are those of organizations is left to GitHub.
-/

namespace Permesh.Github

open Permesh.Lib

/-- The organizations of a provider. -/
theorem organizations_firsts (organizations : List String) :
    Firsts Text.lowercase organizations (dedupByName (sortByName organizations)) :=
  firsts_destutter (fun a b => by rw [Text.eqIgnoreAsciiCase, beq_eq_false_iff_ne]) organizations

/-- The constructor keeps no others. -/
theorem organizations_of_new {K : Native.Crates} {world : World} {id token : String}
    {organizations : List String} {network : Option Native.NetworkContext} {client : Client}
    (built : newWithNetwork K world id organizations token network = .ok client) :
    client.organizations = dedupByName (sortByName organizations) := by
  unfold newWithNetwork at built
  by_cases pass : configured id organizations token = false
  · rw [if_pos pass] at built
    cases built
  · rw [if_neg pass] at built
    obtain ⟨-, -, built⟩ := bind_ok built
    split at built <;> cases built
    rfl

/-- **No organization twice, and none left out.** Configurations that differ in the order and in the
case of their organizations, or name one of them again, lead to the same names in the same order. This
is what every client has that the constructor builds. -/
theorem organizations_canonical (organizations : List String) :
    (∀ (K : Native.Crates) world id token network client,
      newWithNetwork K world id organizations token network = .ok client →
        client.organizations = dedupByName (sortByName organizations)) ∧
      Firsts Text.lowercase organizations (dedupByName (sortByName organizations)) ∧
      (∀ o ∈ organizations, ∃ kept ∈ dedupByName (sortByName organizations),
        Text.eqIgnoreAsciiCase kept o = true) ∧
      ∀ organizations' : List String, (∀ name, name ∈ organizations.map Text.lowercase ↔
          name ∈ organizations'.map Text.lowercase) →
        (dedupByName (sortByName organizations)).map Text.lowercase =
          (dedupByName (sortByName organizations')).map Text.lowercase := by
  have firsts := organizations_firsts organizations
  refine ⟨fun K world id token network client built => organizations_of_new built, firsts,
    fun o mem => ?_, fun organizations' same =>
      firsts.keys_eq (organizations_firsts organizations') same⟩
  obtain ⟨kept, there, name⟩ := List.mem_map.mp (firsts.mem_keys.mpr (List.mem_map.mpr ⟨o, mem, rfl⟩))
  exact ⟨kept, there, beq_iff_eq.mpr name⟩

end Permesh.Github
