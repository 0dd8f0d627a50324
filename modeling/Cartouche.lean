import Cartouche.Json.Parse
import Cartouche.Plane.Figure
import Cartouche.Style.Scale
import Cartouche.GeoJson.Basic
import Cartouche.Gml.Encoder
import Cartouche.Kml.Encoder
import Cartouche.Proofs.Number.Order
import Cartouche.Proofs.Plane.Bounds
import Cartouche.Proofs.Markup.Reader
import Cartouche.Proofs.Markup.Tree
import Cartouche.Proofs.Markup.Text
import Cartouche.Proofs.Markup.Geometry
import Cartouche.Proofs.Gml.Sketch
import Cartouche.Proofs.Feature.Harvest
import Cartouche.Proofs.Gml.Document
import Cartouche.Proofs.Gml.Header
import Cartouche.Proofs.Gml.Collection
import Cartouche.Proofs.Kml.Document
import Cartouche.Proofs.Markup.Dialect
import Cartouche.Proofs.Feature.Session
import Cartouche.Proofs.Document.Session
import Cartouche.Proofs.Markup.Reindent
import Cartouche.Proofs.Gml.InPlace
import Cartouche.Proofs.Document.Layout
import Cartouche.Proofs.Number.Arithmetic
import Cartouche.Proofs.Number.Places
import Cartouche.Proofs.Gml.Enclosure
import Cartouche.Proofs.Gml.Ledger
import Cartouche.Proofs.Json.ReadBack
import Cartouche.Proofs.Json.Forms
import Cartouche.Proofs.GeoJson.Import
import Cartouche.Proofs.GeoJson.Value
import Cartouche.Proofs.GeoJson.Ids
import Cartouche.Proofs.Style.Effective
import Cartouche.Proofs.Kml.Parts
import Cartouche.Proofs.Kml.Effective
import Cartouche.Proofs.Plane.Halfway
import Cartouche.Proofs.Plane.Outline
import Cartouche.Proofs.Markup.Atomic
import Cartouche.Proofs.Kml.Center
import Cartouche.Proofs.Number.Infinity
import Cartouche.Proofs.Style.Resolution
import Cartouche.Proofs.Style.Scale
import Cartouche.Proofs.Plane.Convex
import Cartouche.Proofs.Plane.Moment
import Cartouche.Proofs.Plane.Gravity
import Cartouche.Proofs.Text.Cursor
import Cartouche.Proofs.Text.Piece
import Cartouche.Proofs.Style.Instruction
import Cartouche.Proofs.Markup.Html
import Cartouche.Proofs.Kml.Description
import Cartouche.Proofs.Kml.Silence
import Cartouche.Proofs.Color
import Cartouche.Proofs.Markup.LocalName
import Cartouche.Proofs.Number.Decimal
import Cartouche.Proofs.Number.Shortest
import Cartouche.Proofs.Number.Positional
import Cartouche.Proofs.Number.Numeral
import Cartouche.Proofs.Number.Fraction
import Cartouche.Proofs.Text.Split
import Cartouche.Proofs.Markup.Coordinates
import Cartouche.Proofs.Plane.Accumulation
import Cartouche.Proofs.Plane.Figure
import Cartouche.Proofs.Plane.Widening
import Cartouche.Proofs.Style.Property
import Cartouche.Proofs.Plane.Distance
import Cartouche.Proofs.Markup.Draft
import Cartouche.Proofs.Plane.Distance
import Cartouche.Proofs.Markup.Draft
