/-!
# Escapes in a page

How characters are written in a page. In a JSON text inside a script element, the three characters
that could end the element or start markup are written by the escapes of JSON strings; in other
markup, the five characters that matter there are written as character references.
-/

namespace ChartTree.Json

/-- A character of a JSON text inside an element. -/
def scriptChar (c : Char) : List Char :=
  if c = '<' then ['\\', 'u', '0', '0', '3', 'C']
  else if c = '>' then ['\\', 'u', '0', '0', '3', 'E']
  else if c = '&' then ['\\', 'u', '0', '0', '2', '6']
  else [c]

/-- A character of an attribute. -/
def attributeChar (c : Char) : List Char :=
  if c = '&' then ['&', 'a', 'm', 'p', ';']
  else if c = '<' then ['&', 'l', 't', ';']
  else if c = '>' then ['&', 'g', 't', ';']
  else if c = '\x22' then ['&', 'q', 'u', 'o', 't', ';']
  else if c = '\x27' then ['&', '#', 'x', '2', '7', ';']
  else [c]

end ChartTree.Json
