import ApiMock.Json.Reader
import ApiMock.Cli.Run
import ApiMock.Main
import ApiMock.Proofs.Data.JsonValue
import ApiMock.Proofs.Schema.Tree
import ApiMock.Proofs.Document.JsonValues
import ApiMock.Proofs.TypeScript.Result
import ApiMock.Proofs.TypeScript.PlainType
import ApiMock.Proofs.TypeScript.Walk
import ApiMock.Proofs.TypeScript.Serve
import ApiMock.Proofs.TypeScript.Memo
import ApiMock.Proofs.TypeScript.Reach
import ApiMock.Proofs.TypeScript.Recursion
import ApiMock.Proofs.TypeScript.Transparent
import ApiMock.Proofs.Blueprint.Resolver
import ApiMock.Proofs.Naming.Canonical
import ApiMock.Proofs.Naming.Slug
import ApiMock.Proofs.Blueprint.Parts
import ApiMock.Proofs.Emit.Paths
import ApiMock.Proofs.Emit.Groups
import ApiMock.Proofs.TypeScript.References
import ApiMock.Proofs.TypeScript.Yields
import ApiMock.Proofs.Blueprint.Contents
import ApiMock.Proofs.Blueprint.References
import ApiMock.Proofs.Blueprint.Exports
import ApiMock.Proofs.Blueprint.Responses
import ApiMock.Proofs.Naming.Passes
import ApiMock.Proofs.Document.Operations
import ApiMock.Proofs.Emit.Members
import ApiMock.Proofs.Naming.Identifier
import ApiMock.Proofs.Blueprint.Names
import ApiMock.Proofs.Data.TextKeys
import ApiMock.Proofs.OpenApi.Fits
import ApiMock.Proofs.Schema.Usable
import ApiMock.Proofs.Schema.Regular
import ApiMock.Proofs.Document.Readable
import ApiMock.Proofs.Document.Reading
import ApiMock.Proofs.Document.Accepted
import ApiMock.Proofs.Yaml.Loading
import ApiMock.Proofs.Files.Values
import ApiMock.Proofs.OpenApi.Loading
import ApiMock.Proofs.Stateful
import ApiMock.Proofs.Seed.Loading
import ApiMock.Proofs.Config.Loading
import ApiMock.Proofs.Json.Writable
import ApiMock.Proofs.Emit.Seeded
import ApiMock.Proofs.Cli.Stages
import ApiMock.Proofs.Text.Pairs
import ApiMock.Proofs.TypeScript.Quoted
import ApiMock.Proofs.TypeScript.Choices
import ApiMock.Proofs.Emit.Comments
import ApiMock.Proofs.Emit.Literals
import ApiMock.Proofs.Emit.Imports
import ApiMock.Proofs.Seed.Reaching
import ApiMock.Proofs.TypeScript.Renderings
import ApiMock.Proofs.Json.Texts
import ApiMock.Proofs.Json.Spelling
import ApiMock.Proofs.Json.Literals
import ApiMock.Proofs.Emit.Embedded
import ApiMock.Proofs.TypeScript.Grammar
import ApiMock.Proofs.TypeScript.Tokens
import ApiMock.Proofs.TypeScript.Printed
import ApiMock.Proofs.TypeScript.Links
import ApiMock.Proofs.Text.Quoted
import ApiMock.Proofs.TypeScript.Reports
import ApiMock.Proofs.TypeScript.Dangling
import ApiMock.Proofs.TypeScript.Collisions
import ApiMock.Proofs.Route.Scope
import ApiMock.Proofs.Document.Parameters
import ApiMock.Proofs.Naming.Placeholders
import ApiMock.Proofs.Document.Overriding
import ApiMock.Proofs.Route.Parameters
import ApiMock.Proofs.Route.RecordId
import ApiMock.Proofs.Naming.Arguments
import ApiMock.Proofs.Route.Arguments
import ApiMock.Proofs.Emit.Guard
import ApiMock.Proofs.Schema.Nested
import ApiMock.Proofs.Naming.Reference
import ApiMock.Proofs.Schema.Origin
import ApiMock.Proofs.Schema.WellFormed
import ApiMock.Proofs.OpenApi.Pointers
import ApiMock.Proofs.Document.Definitions
import ApiMock.Proofs.Document.Replacing
import ApiMock.Proofs.Config.Reading
import ApiMock.Proofs.Config.Merging
import ApiMock.Proofs.TypeScript.Skimmed
import ApiMock.Proofs.TypeScript.Descriptions
import ApiMock.Proofs.Emit.Placing
import ApiMock.Proofs.Naming.Stability
import ApiMock.Proofs.Route.Statuses
import ApiMock.Proofs.OpenApi.Named
import ApiMock.Proofs.Json.Grammar
import ApiMock.Proofs.Yaml.Shared
import ApiMock.Proofs.Yaml.Numerals
import ApiMock.Proofs.Yaml.Scanning
import ApiMock.Proofs.Yaml.Cutting
import ApiMock.Proofs.Yaml.Nodes
import ApiMock.Proofs.Yaml.Values
import ApiMock.Proofs.OpenApi.Notation
