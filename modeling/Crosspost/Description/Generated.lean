/-
  The descriptions of all configured sites.

  * `Generated.ofSource` normalizes and reads a source once and renders it for
    every registered site with an account, in the order of the registry;
  * the events say, site by site, which gaps there are and how long the text is;
    those of the sites before one that cannot be rendered stay with the error.
-/
import Crosspost.Description.Document
import Crosspost.Description.Rendering
import Crosspost.Description.Source
import Crosspost.Log.Event

namespace Crosspost

/-- The description of a site. -/
structure SiteDescription where
  site : String
  fileName : String
  text : String
  gaps : List Gap
  deriving DecidableEq, Repr

/-- Why no descriptions can be generated. -/
inductive GenerateError where
  | parse (error : ParseError)
  /-- A site cannot be rendered, after the events of those before it. -/
  | render (error : RenderError) (earlier : List LogEvent)

namespace GenerateError

/-- The events until an error. -/
def events : GenerateError → List LogEvent
  | parse _ => []
  | render _ earlier => earlier

/-- The error when there were some events before. -/
def after (events : List LogEvent) : GenerateError → GenerateError
  | parse error => parse error
  | render error earlier => render error (events ++ earlier)

end GenerateError

/-- Descriptions, and the events of their making. -/
structure Generated where
  descriptions : List SiteDescription
  events : List LogEvent

namespace Generated

/-- The event that reports a gap. -/
def gapEvent (gap : Gap) : LogEvent where
  level := .warn
  message := match gap.kind with
    | .self => "[self] has no username for this site; rendered nothing"
    | .siteurl => "[siteurl] has no entry for this site and no [generic]; rendered nothing"
  context := .ofJson [("site", .string gap.site), ("line", .int gap.position.line),
    ("column", .int gap.position.column)]

/-- The event that ends the rendering for a site. -/
def doneEvent (site : Site) (text : String) : LogEvent where
  level := .debug
  message := "Description rendered"
  context := .ofJson [("site", .string site.id), ("chars", .nat (Text.width text))]

/-- The registered sites on which the author has an account. -/
def targets (registry : Registry) (usernames : Usernames) : List Site :=
  registry.sites.filter fun site => (usernames.account? site.id).isSome

/-- The description of a site from its rendered text. -/
def describe (site : Site) (rendered : Fragment) : SiteDescription :=
  ⟨site.id, site.outputFile, Source.finalize rendered.text, rendered.gaps⟩

/-- The descriptions of one site. -/
def ofSite (registry : Registry) (usernames : Usernames) (flags : List String)
    (nodes : List Node) (site : Site) : Except GenerateError Generated :=
  match Document.render registry usernames flags nodes site.id with
  | .error e => .error (.render e [])
  | .ok rendered =>
    .ok ⟨[describe site rendered], rendered.gaps.map gapEvent ++ [doneEvent site rendered.text]⟩

/-- All descriptions, one after another. -/
def append (a b : Generated) : Generated :=
  ⟨a.descriptions ++ b.descriptions, a.events ++ b.events⟩

/-- The descriptions of the sites, rendered from one tree. -/
def ofNodes (registry : Registry) (usernames : Usernames) (flags : List String)
    (nodes : List Node) : List Site → Except GenerateError Generated
  | [] => .ok ⟨[], []⟩
  | site :: sites => do
    let first ← ofSite registry usernames flags nodes site
    let others ← (ofNodes registry usernames flags nodes sites).mapError (.after first.events)
    .ok (first.append others)

/-- The descriptions that a source makes. A blank source makes empty ones,
    without any event. -/
def ofSource (registry : Registry) (usernames : Usernames) (flags : List String)
    (source : String) : Except GenerateError Generated :=
  let normalized := Source.normalize source
  let sites := targets registry usernames
  if Text.isBlank normalized then .ok ⟨sites.map (describe · .empty), []⟩
  else match Document.parse registry normalized with
    | .error e => .error (.parse e)
    | .ok nodes => ofNodes registry usernames flags nodes sites

end Generated

end Crosspost
