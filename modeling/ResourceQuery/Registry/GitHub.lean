/-
The built-in registry, for the GitHub GraphQL API.

An organization, and a search for pull requests or issues, are meant as roots. Pull requests are no children of
repositories: with commits, reviews and labels below them that nesting is so deep that one failed page fails the whole
request. Spreads such as `...userFields` name fragments that the client registers, not this registry.
-/
import ResourceQuery.Registry.Basic

namespace ResourceQuery.GitHub

/-! ## Names -/

def organization : ResourceId := ⟨"organization"⟩
def organizationMembers : ResourceId := ⟨"membersWithRole"⟩
def teams : ResourceId := ⟨"teams"⟩
def teamMembers : ResourceId := ⟨"members"⟩
def teamRepositories : ResourceId := ⟨"teamRepositories"⟩
def repositories : ResourceId := ⟨"repositories"⟩
def collaborators : ResourceId := ⟨"collaborators"⟩
def pullRequest : ResourceId := ⟨"pullRequest"⟩
def pullRequests : ResourceId := ⟨"pullRequests"⟩
def commits : ResourceId := ⟨"commits"⟩
def reviews : ResourceId := ⟨"reviews"⟩
def labels : ResourceId := ⟨"labels"⟩
def issues : ResourceId := ⟨"issues"⟩
def assignees : ResourceId := ⟨"assignees"⟩
/-- labels selected on issues; `labels` selects those of pull requests -/
def issueLabels : ResourceId := ⟨"labelsOnIssues"⟩
/-- repositories with nothing but their ids, to walk their collaborators -/
def repositoryIds : ResourceId := ⟨"reposForCollabs"⟩

/-- all built-in names, organizations first -/
def ids : List ResourceId :=
  [organization, organizationMembers, teams, teamMembers, teamRepositories, repositories, collaborators, pullRequest,
    pullRequests, commits, reviews, labels, issues, assignees, issueLabels, repositoryIds]

/-! ## Fragments -/

def pageInfo : String := "pageInfo \x7b\nendCursor\nhasNextPage\n\x7d"

/-- the arguments that ask for one page after a cursor, without the closing bracket -/
def pageArguments (page : UInt32) (cursor : String) : String :=
  "(first: " ++ toString page.toNat ++ ", after: $" ++ cursor

/-- a paginated connection whose nodes have a slot for more; `edgeFields` follow the node -/
def connection (field : String) (page : UInt32) (cursor nodeFields : String) (edgeFields : Option String) : Fragment :=
  .nested
    (field ++ pageArguments page cursor ++ ") \x7b\nedges \x7b\nnode \x7b\n" ++ nodeFields ++ "\n")
    ("\x7d\n" ++ (edgeFields.map (· ++ "\n")).getD "" ++ "\x7d\n" ++ pageInfo ++ "\n\x7d")

/-- a paginated connection selected on one type of node, with no slot -/
def inlineConnection (onType field : String) (page : UInt32) (cursor nodeFields : String) : Fragment :=
  .leaf ("... on " ++ onType ++ " \x7b\n" ++ field ++ pageArguments page cursor ++
    ") \x7b\ntotalCount\nedges \x7b\nnode \x7b\n" ++ nodeFields ++ "\n\x7d\n\x7d\n" ++ pageInfo ++ "\n\x7d\n\x7d")

/-- a search for issues or pull requests, by the variable `query` -/
def issueSearch (page : UInt32) (cursor nodeFields : String) : Fragment :=
  .nested
    ("search" ++ pageArguments page cursor ++
      ", type: ISSUE, query: $query) \x7b\nissueCount\nedges \x7b\nnode \x7b\n" ++ nodeFields ++ "\n")
    ("\x7d\n\x7d\n" ++ pageInfo ++ "\n\x7d")

/-! ## Entries

The cursor of a connection is a variable named after its resource. -/

/-- the declaration of a cursor -/
def cursorOf (id : ResourceId) : Variable := ⟨id.name, "String"⟩

/-- a connection on the field of the resource's own name -/
def connectionEntry (limits : PageLimits) (id : ResourceId) (nodeFields : String) (edgeFields : Option String)
    (parent : Option ResourceId) (children : List ResourceId) : ResourceId × Metadata :=
  (id, { declarations := [cursorOf id]
         fragment := connection id.name limits.page id.name nodeFields edgeFields
         parent, children })

/-- a connection on nodes of one type, on the field of the resource's own name -/
def inlineEntry (limits : PageLimits) (id : ResourceId) (onType nodeFields : String) : ResourceId × Metadata :=
  (id, { declarations := [cursorOf id]
         fragment := inlineConnection onType id.name limits.page id.name nodeFields })

/-- a search, with its own page size -/
def searchEntry (limits : PageLimits) (id : ResourceId) (nodeFields : String) (children : List ResourceId) :
    ResourceId × Metadata :=
  (id, { declarations := [⟨"query", "String!"⟩, cursorOf id]
         fragment := issueSearch limits.nested id.name nodeFields
         children
         responsePath := some "search" })

/-- the entries in registration order -/
def entries (limits : PageLimits) : List (ResourceId × Metadata) :=
  [ (pullRequest,
      { declarations := [⟨"pullRequestNumber", "Int!"⟩, ⟨"repoName", "String!"⟩, ⟨"repoOwner", "String!"⟩]
        fragment := .nested
          ("repository(name: $repoName, owner: $repoOwner) \x7b\npullRequest(number: $pullRequestNumber) \x7b\n" ++
            "...pullRequestFields\n")
          "\x7d\n\x7d"
        children := [commits, reviews, labels]
        responsePath := some "repository.pullRequest" }),
    searchEntry limits pullRequests "...pullRequestFields" [commits, reviews, labels],
    inlineEntry limits commits "PullRequest" "commit \x7b\n...commitFields\n\x7d",
    inlineEntry limits reviews "PullRequest" "...reviewFields",
    inlineEntry limits labels "PullRequest" "id\nname",
    searchEntry limits issues "...issueFields" [assignees, issueLabels],
    inlineEntry limits assignees "Issue" "name\nlogin",
    -- the field and the cursor of the labels of pull requests
    (issueLabels,
      { declarations := [cursorOf labels]
        fragment := inlineConnection "Issue" labels.name limits.page labels.name "id\nname"
        alternateField := some labels.name }),
    (organization,
      { declarations := [⟨"login", "String!"⟩]
        fragment := .nested "organization(login: $login) \x7b\nid\n...organizationFields\n" "\x7d"
        children := [organizationMembers, teams, teamMembers, repositories]
        responsePath := some "organization" }),
    connectionEntry limits organizationMembers "id\n...userFields" (some "...userEdgeFields") none [],
    connectionEntry limits teams "id\n...teamFields" none none [teamMembers, teamRepositories],
    connectionEntry limits teamMembers "id\n...teamMemberFields" (some "...teamMemberEdgeFields") (some teams) [],
    -- the repositories field, below a team
    (teamRepositories,
      { declarations := [cursorOf teamRepositories]
        fragment := connection repositories.name limits.page teamRepositories.name "id\n...repositoryFields"
          (some "...teamRepositoryEdgeFields")
        parent := some teams
        alternateField := some repositories.name }),
    connectionEntry limits repositories "id\n...repositoryFields" none none [collaborators],
    connectionEntry limits collaborators "id\nlogin" (some "permission") (some repositories) [],
    (repositoryIds,
      { declarations := [cursorOf repositories]
        fragment := connection repositories.name limits.page repositories.name "id" none
        alternateField := some repositories.name }) ]

/-- the built-in registry with the given page sizes -/
def registry (limits : PageLimits) : Registry := Registry.ofList limits (entries limits)

end ResourceQuery.GitHub
