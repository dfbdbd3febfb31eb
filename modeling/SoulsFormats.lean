import SoulsFormats.Core.BackPatch
import SoulsFormats.Text.FmgRoundtrip
import SoulsFormats.Script.LuagnlRoundtrip
import SoulsFormats.Script.LuainfoRoundtrip
import SoulsFormats.Script.EmevdEdit
import SoulsFormats.Script.EmevdRoundtrip
import SoulsFormats.Compression.DcxBounds
import SoulsFormats.Compression.DcxRoundtrip
import SoulsFormats.Core.Layout
import SoulsFormats.Core.Scan
import SoulsFormats.Archive.Bnd2
import SoulsFormats.Archive.Bnd2Roundtrip
import SoulsFormats.Archive.BinderCommon
import SoulsFormats.Archive.Bnd3
import SoulsFormats.Archive.BinderRoundtrip
import SoulsFormats.Archive.Bnd3Roundtrip
import SoulsFormats.Archive.Bnd4
import SoulsFormats.Archive.Binder4Image
import SoulsFormats.Archive.Bnd4Roundtrip
import SoulsFormats.Core.FilePair
import SoulsFormats.Archive.Bxf4
import SoulsFormats.Archive.Bxf4Roundtrip
import SoulsFormats.Core.ReaderHeap
import SoulsFormats.Archive.Bnd4Reader
import SoulsFormats.Core.Accepted
import SoulsFormats.Archive.Tpf
import SoulsFormats.Archive.TpfRoundtrip
import SoulsFormats.Core.Sequential
import SoulsFormats.Effects.Ffxdlse
import SoulsFormats.Effects.FfxdlseRoundtrip
import SoulsFormats.Core.Making
import SoulsFormats.Navmesh.Nva
import SoulsFormats.Navmesh.NvaRoundtrip
import SoulsFormats.Core.Tables
import SoulsFormats.Navmesh.Mcg
import SoulsFormats.Navmesh.McgRoundtrip
import SoulsFormats.Navmesh.Nvm
import SoulsFormats.Navmesh.NvmRoundtrip
import SoulsFormats.Misc.Mqb
import SoulsFormats.Misc.MqbEvents
import SoulsFormats.Core.StreamRuns
import SoulsFormats.Text.FmgDedup
import SoulsFormats.Archive.BinderHashTable
import SoulsFormats.Ac.Paramdbp
import SoulsFormats.Ac.ParamdbpRoundtrip
import SoulsFormats.Lighting.Btl
import SoulsFormats.Core.Fields
import SoulsFormats.Lighting.BtlRoundtrip
import SoulsFormats.Library.Sweep
import SoulsFormats.Param.FieldLayout
import SoulsFormats.Param.BitWindows
import SoulsFormats.Param.BitAccesses
import SoulsFormats.Param.RowSizes
import SoulsFormats.Param.Param
import SoulsFormats.Param.RowOperations
import SoulsFormats.Param.FailedOperations
import SoulsFormats.Param.CellSetters
import SoulsFormats.Param.RowCopy
import SoulsFormats.Param.FaithfulCopies
import SoulsFormats.Geom.FaceSet
import SoulsFormats.Geom.Mdl4
import SoulsFormats.Geom.StripTriangles
import SoulsFormats.Script.EsdBytecode
import SoulsFormats.Script.EsdBytecodeLossless
import SoulsFormats.Compression.EdgeCoverage
import SoulsFormats.Param.Paramtdf
import SoulsFormats.Param.ParamtdfText
import SoulsFormats.Library.Descent
import SoulsFormats.Script.EsdConditions
import SoulsFormats.Script.EsdExpansion
import SoulsFormats.Effects.Fxr3
import SoulsFormats.Effects.Fxr3Descent
import SoulsFormats.Archive.Bhd5
import SoulsFormats.Archive.Bhd5Pools
import SoulsFormats.Archive.Bhd5Extract
import SoulsFormats.Archive.Bhd5Ranges
import SoulsFormats.Library.Building
import SoulsFormats.Core.Construction
import SoulsFormats.Script.EmevdObject
import SoulsFormats.Script.EmevdArrays
import SoulsFormats.Core.Xml
import SoulsFormats.Effects.TaeTemplate
import SoulsFormats.Effects.TaeApply
import SoulsFormats.Effects.TaeTemplateRead
import SoulsFormats.Effects.TaeInheritance
import SoulsFormats.Core.Alike
import SoulsFormats.Navmesh.NvmDescent
import SoulsFormats.Map.Msb
import SoulsFormats.Map.MsbChain
import SoulsFormats.Geom.FlverVertex
import SoulsFormats.Geom.FlverVertexRoundtrip
import SoulsFormats.Geom.FlverVertexLayout
import SoulsFormats.Geom.FlverMesh
import SoulsFormats.Geom.FlverChannels
import SoulsFormats.Geom.FlverMeshChannels
import SoulsFormats.Core.Echoes
import SoulsFormats.Archive.GroupCount
import SoulsFormats.Effects.Nmb
import SoulsFormats.Ac.Dbpparam
import SoulsFormats.Navmesh.NvaPayloads
import SoulsFormats.Geom.Mtd
import SoulsFormats.Geom.MtdRoundtrip
import SoulsFormats.Misc.Ccm
import SoulsFormats.Misc.CcmGlyphs
import SoulsFormats.Misc.CcmImage
import SoulsFormats.Misc.CcmRoundtrip
import SoulsFormats.Misc.Smd4
import SoulsFormats.Misc.Smd4Image
import SoulsFormats.Misc.Smd4Roundtrip
import SoulsFormats.Geom.Mdl4Object
import SoulsFormats.Geom.Mdl4Materials
import SoulsFormats.Geom.Mdl4Arrays
import SoulsFormats.Effects.FfxdlseFiles
import SoulsFormats.Navmesh.Mcp
import SoulsFormats.Navmesh.McpRoundtrip
import SoulsFormats.Library.Maintains
import SoulsFormats.Library.Trimming
import SoulsFormats.Param.InternalNames
import SoulsFormats.Param.ParentLinks
import SoulsFormats.Param.DefAttr
import SoulsFormats.Param.ParamRoundtrip
