import Mathlib
import AbbeyBot.Library.Text
import AbbeyBot.Work.Types

/-! # Repositories

A repository is the same in every ASCII case of its owner and name. Links are kept in lower case, and
a project lists the repositories that its tasks may be linked to. -/

namespace AbbeyBot.Work.Types

open AbbeyBot.Library.OrderedMap AbbeyBot.Library.Result AbbeyBot.Library.Text

/-- `valid_part`. -/
def validPart (part : String) : Bool :=
  part != "" && part != "." && part != ".." && part.utf8ByteSize ≤ 100 &&
    part.toList.all fun c => c.isAlphanum || c == '-' || c == '_' || c == '.'

/-- The condition of `GitHubRepository::validate`. -/
def GitHubRepository.Valid (r : GitHubRepository) : Prop :=
  r.installation ≠ 0 ∧ validPart r.owner = true ∧ validPart r.name = true

instance (r : GitHubRepository) : Decidable r.Valid := inferInstanceAs (Decidable (_ ∧ _))

/-- `GitHubRepository::canonical`. -/
def GitHubRepository.canonical (r : GitHubRepository) : GitHubRepository :=
  ⟨r.installation, r.owner.toLower, r.name.toLower⟩

/-- `GitHubRepository::same_identity`. -/
def GitHubRepository.SameIdentity (r r' : GitHubRepository) : Prop :=
  r.installation = r'.installation ∧ r.owner.toLower = r'.owner.toLower ∧
    r.name.toLower = r'.name.toLower

instance (r r' : GitHubRepository) : Decidable (r.SameIdentity r') :=
  inferInstanceAs (Decidable (_ ∧ _))

/-- The condition of `GitHubReference::validate`. -/
def GitHubReference.Valid (r : GitHubReference) : Prop := r.repository.Valid ∧ r.number ≠ 0

instance (r : GitHubReference) : Decidable r.Valid := inferInstanceAs (Decidable (_ ∧ _))

/-- The reference with its repository in lower case. -/
def GitHubReference.canonical (r : GitHubReference) : GitHubReference :=
  { r with repository := r.repository.canonical }

/-- `WorkProject::allows_github_repository`. -/
def WorkProject.AllowsGithubRepository (p : WorkProject) (r : GitHubRepository) : Prop :=
  ∃ candidate ∈ p.allowedGithubRepositories, candidate.SameIdentity r

instance (p : WorkProject) (r : GitHubRepository) : Decidable (p.AllowsGithubRepository r) :=
  inferInstanceAs (Decidable (∃ candidate ∈ _, _))

/-- The word for a kind of item in an address. -/
def GitHubItemKind.parse (kind : List Char) : Option GitHubItemKind :=
  if kind = "issues".toList then some .issue
  else if kind = "pull".toList then some .pullRequest
  else none

/-- `parse_legacy_source`: the address of an item of one of the repositories. Where the owner and the
name are those of repositories of more than one installation, it is nobody's. -/
def parseLegacySource (source : String) (repositories : BTreeSet GitHubRepository) :
    Option GitHubReference := do
  let path ← source.toList.dropPrefix? "https://github.com/".toList
  match path.splitOn '/' with
  | [owner, name, kind, number] => do
    let owner := String.ofList owner
    let name := String.ofList name
    guard (validPart owner = true ∧ validPart name = true ∧ number.head? ≠ some '0' ∧
      number.all Char.isDigit = true)
    let number ← parseU64 number
    guard (0 < number)
    let kind ← GitHubItemKind.parse kind
    let installations := (repositories.filter fun r =>
      r.owner.toLower = owner.toLower ∧ r.name.toLower = name.toLower).image (·.installation)
    match installations.sort (· ≤ ·) with
    | [installation] => some ⟨⟨installation, owner.toLower, name.toLower⟩, kind, number⟩
    | _ => none
  | _ => none

end AbbeyBot.Work.Types
