/-
Which records are logged, and how they are written.

A filter is a comma-separated list of directives;
of two that differ in their limit alone the later one stands, and a list
without items admits errors only.

Of the directives without a span and without a value of a field, the
narrowest one that is about an event decides: the one with the longest
target, and then the one that asks for a field. Events that none of them is
about are not logged. The directives that ask for a span or a field of one
are about all events within that span, and about the span itself: there each
of them can admit what would not be logged otherwise.

A record has a time stamp, the level, the span in which the event happened, the
event and its fields. In colour each of these parts has its own style.
-/
import LoxLexer.Builtin.Directive
import LoxLexer.Builtin.Terminal

namespace LoxLexer.Log

namespace Directive

/-- Whether two directives are about the same. -/
def sameScope (d e : Directive) : Bool :=
  d.target == e.target && d.span == e.span && d.field == e.field

/-- Whether a directive is about targets like the one of a site. -/
def coversTarget (d : Directive) (site : Site) : Bool :=
  d.target.all fun start => start.toList.isPrefixOf site.target.toList

-- ======================================================= single sites

/-- Whether a directive looks at each event and span by itself. -/
def isPlain (d : Directive) : Bool := d.span.isNone && d.field.all (·.value.isNone)

/-- Whether a plain directive is about a site. The fields of spans do not
matter here. -/
def concerns (d : Directive) (site : Site) : Bool :=
  d.isPlain && d.coversTarget site
    && (site.span.isSome || d.field.all fun field => site.fields.contains field.name)

/-- How narrow the target of a directive is; none at all is the widest. -/
def targetLength (d : Directive) : Nat := (d.target.map fun start => start.length + 1).getD 0

/-- Whether a directive is at least as narrow as another. Of two fields the
one with the later name counts as the narrower. -/
def isNarrower (d e : Directive) : Bool :=
  decide (e.targetLength < d.targetLength)
    || (e.targetLength == d.targetLength
      && match e.field, d.field with
        | none, _ => true
        | some _, none => false
        | some f, some g => decide (f.name ≤ g.name))

-- ============================================================== spans

/-- Whether a directive asks for a span, by its name or by a field of it. -/
def catches (d : Directive) (span : Site) : Bool :=
  (d.span.isSome || d.field.isSome) && d.coversTarget span
    && d.span.all (span.span == some ·)
    && d.field.all fun field => span.fields.contains field.name

/-- Whether the scan of so many bytes has the value asked for. -/
def acceptsSize (d : Directive) (bytes : Nat) : Bool :=
  d.field.all fun field => field.value.all fun value => Limit.number? value.toList == some bytes

end Directive

-- ============================================================ filters

/-- Directives of which no two are about the same. -/
abbrev Filter := List Directive

namespace Filter

/-- The filter with one limit for every target. -/
def upTo (level : Level) : Filter := [.general (.upTo level)]

/-- Adds a directive in place of one that is about the same. -/
def add (f : Filter) (d : Directive) : Filter := f.filter (!d.sameScope ·) ++ [d]

/-- The filter of some directives. -/
def ofDirectives : List Directive → Filter
  | [] => upTo .error
  | directives => directives.foldl add []

/-- The items of a list. -/
def items (text : String) : List (List Char) := (text.toList.splitOn ',').filter (· ≠ [])

/-- Reads a list of items; one that cannot be read spoils the list. -/
def ofText? (text : String) : Option Filter :=
  ((items text).mapM Directive.ofItem?).map ofDirectives

/-- Reads a list of items, without those that cannot be read. -/
def ofText (text : String) : Filter := ofDirectives ((items text).filterMap Directive.ofItem?)

/-- The narrower one of the directives that are about a site. -/
def narrower (site : Site) (best : Option Directive) (d : Directive) : Option Directive :=
  if d.concerns site then
    match best with
    | none => some d
    | some b => if d.isNarrower b then some d else best
  else best

/-- The limit that the plain directives set for a site. -/
def limit (f : Filter) (site : Site) : Limit :=
  ((f.foldl (narrower site) none).map Directive.limit).getD .off

/-- Whether an event or a span is admitted, outside of any span or during the
scan of so many bytes. -/
def admits (f : Filter) (scanned : Option Nat) (site : Site) : Bool :=
  (f.limit site).admits site.level
    || f.any (fun d => site.span.isSome && d.catches site)
    || scanned.any fun bytes =>
      f.any fun d => d.catches scanSite && d.acceptsSize bytes && d.limit.admits site.level

end Filter

-- ============================================================ records

/-- A text in a style, or the bare text. -/
def painted (coloured : Bool) (style text : String) : String :=
  if coloured then styled style text else text

/-- A level in capitals, at the right of five places, in its colour. -/
def levelText (coloured : Bool) : Level → String
  | .error => painted coloured "31" "ERROR"
  | .warn => painted coloured "33" " WARN"
  | .info => painted coloured "32" " INFO"
  | .debug => painted coloured "34" "DEBUG"
  | .trace => painted coloured "35" "TRACE"

/-- A field with its name in italics and a dim equals sign. -/
def fieldText (coloured : Bool) (field : String × String) : String :=
  painted coloured "3" field.1 ++ painted coloured "2" "=" ++ field.2

/-- The span of the scan of so many bytes. -/
def spanText (coloured : Bool) (bytes : Nat) : String :=
  painted coloured "1" "scan" ++ painted coloured "1" "\x7b"
    ++ fieldText coloured ("bytes", toString bytes)
    ++ painted coloured "1" "\x7d" ++ painted coloured "2" ":" ++ " "

/-- An event as one line, in colour or not, with the scan it happens in if
that is shown, and with a time stamp in front. -/
def recordText (coloured : Bool) (scanned : Option Nat) (e : Event) (stamp : String) :
    String :=
  painted coloured "2" stamp ++ " " ++ levelText coloured e.level ++ " "
    ++ (scanned.map (spanText coloured)).getD "" ++ e.message
    ++ String.join (e.fields.map fun field => " " ++ fieldText coloured field) ++ "\n"

end LoxLexer.Log
